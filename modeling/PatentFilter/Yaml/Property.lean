import PatentFilter.Yaml.BlockScalar
import PatentFilter.Yaml.FlowScalar
import PatentFilter.Yaml.Token

/-!
# Anchors, tags and directives
-/

namespace PatentFilter.Yaml

def isWordChar (c : Char) : Bool := c.isAlphanum || c == '_' || c == '-'

def readName? (cs : List Cell) : Option (String × List Cell) :=
  let (name, rest) := splitWhile isWordChar cs
  if name.isEmpty then none
  else if endsWord rest || startsWith (fun c => "?:,]\x7d%@`".toList.contains c) rest then
    some (String.ofList name, rest)
  else none

def isUriChar (c : Char) : Bool :=
  isWordChar c || ";/?:@&=+$.!~*'()".toList.contains c

/-- The number of octets of a character, by the first of them. -/
def octetCount? (first : Nat) : Option Nat :=
  if first < 0x80 then some 1
  else if 0xc0 ≤ first ∧ first < 0xe0 then some 2
  else if 0xe0 ≤ first ∧ first < 0xf0 then some 3
  else if 0xf0 ≤ first ∧ first < 0xf8 then some 4
  else none

/-- The octets of a tag's text. A percent sign spells an octet; the number counts those that the
character begun still lacks. -/
def uriFrom (verbatim : Bool) : Nat → List Cell → Option (List UInt8 × List Cell)
  | lacking, a :: cs =>
    if a.char == '%' then
      match cs with
      | b :: c :: cs =>
        match hexDigit? b.char, hexDigit? c.char with
        | some hi, some lo =>
          let n := 16 * hi + lo
          let count := if lacking = 0 then octetCount? n
            else if 0x80 ≤ n ∧ n < 0xc0 then some lacking
            else none
          match count with
          | none => none
          | some k => (uriFrom verbatim (k - 1) cs).map fun r => (UInt8.ofNat n :: r.1, r.2)
        | _, _ => none
      | _ => none
    else if lacking != 0 then none
    else if isUriChar a.char || (verbatim && ",[]".toList.contains a.char) then
      (uriFrom verbatim 0 cs).map fun r => (a.char.toUInt8 :: r.1, r.2)
    else some ([], a :: cs)
  | lacking, [] => if lacking = 0 then some ([], []) else none

def readUri? (verbatim : Bool) (cs : List Cell) : Option (Tag × List Cell) := do
  let (octets, rest) ← uriFrom verbatim 0 cs
  if octets.isEmpty then none else some (Tag.untilZero octets, rest)

/-- A handle: an exclamation mark, and perhaps a word and a second mark. -/
def readHandle? : List Cell → Option (List Char × List Cell)
  | c :: cs =>
    if c.char != '!' then none
    else
      let (word, rest) := splitWhile isWordChar cs
      if startsWith (· == '!') rest then some ('!' :: word ++ ['!'], rest.drop 1)
      else some ('!' :: word, rest)
  | [] => none

/-- A tag: verbatim between angle brackets, or a suffix after a handle. A single mark without a
suffix is a tag of its own. -/
def readTag? (inFlow : Bool) (cs : List Cell) : Option (Token × List Cell) := do
  let (handle, suffix, rest) ←
    if startsWith (· == '<') (cs.drop 1) then do
      let (uri, rest) ← readUri? true (cs.drop 2)
      if !startsWith (· == '>') rest then none
      else pure ([], uri, rest.drop 1)
    else do
      let (handle, rest) ← readHandle? cs
      if 2 ≤ handle.length && handle.getLast? == some '!' then do
        let (uri, rest) ← readUri? false rest
        pure (handle, uri, rest)
      else do
        let (octets, rest) ← uriFrom false 0 rest
        let suffix := Tag.untilZero (Tag.ofText (String.ofList (handle.drop 1)) ++ octets)
        pure (if suffix.isEmpty then ([], [Tag.mark], rest) else (['!'], suffix, rest))
  if endsWord rest || (inFlow && startsWith (· == ',') rest) then
    return (.tag (String.ofList handle) suffix, rest)
  else none

def readVersionNumber? (cs : List Cell) : Option (Nat × List Cell) :=
  let (digits, rest) := splitWhile Char.isDigit cs
  if digits.isEmpty || 9 < digits.length then none
  else some (digits.foldl (fun n c => 10 * n + (c.toNat - '0'.toNat)) 0, rest)

def skipGaps (cs : List Cell) : List Cell := cs.dropWhile fun c => isGap c.char

/-- A directive after its percent sign, up to the end of the line. -/
def readDirective? (cs : List Cell) : Option (Token × List Cell) := do
  let (name, rest) := splitWhile isWordChar cs
  if !endsWord rest then none
  let (token, rest) ←
    if name == "YAML".toList then do
      let (major, rest) ← readVersionNumber? (skipGaps rest)
      if !startsWith (· == '.') rest then none
      let (minor, rest) ← readVersionNumber? (rest.drop 1)
      pure (Token.version major minor, rest)
    else if name == "TAG".toList then do
      let (handle, rest) ← readHandle? (skipGaps rest)
      if (handle.getLast? != some '!') || !startsWith isGap rest then none
      let (uri, rest) ← readUri? true (skipGaps rest)
      if !endsWord rest then none
      pure (Token.handle (String.ofList handle) uri, rest)
    else none
  let rest ← skipLineEnd? rest
  return (token, rest)

end PatentFilter.Yaml

import PatentFilter.Yaml.Cell

/-!
# Plain and quoted scalars

Both may run over several lines. Gaps inside a line are kept, gaps around a line end are dropped,
one line end becomes a space and of several the first is dropped.
-/

namespace PatentFilter.Yaml

/-- What was passed since the last character of a scalar, the latest first. -/
structure Fold where
  broken : Bool := false
  spaces : List Char := []
  firstBreak : List Char := []
  moreBreaks : List Char := []
  deriving DecidableEq, Repr

namespace Fold

def addSpace (f : Fold) (c : Char) : Fold :=
  if f.broken then f else { f with spaces := c :: f.spaces }

def addBreak (f : Fold) (c : Char) : Fold :=
  if f.broken then { f with moreBreaks := c :: f.moreBreaks }
  else { f with broken := true, spaces := [], firstBreak := [c] }

/-- After a line end that the text itself gives up. -/
def escaped : Fold := { broken := true }

/-- The characters that stand for the gap, the last one first. -/
def join (f : Fold) : List Char :=
  if !f.broken then f.spaces
  else if f.firstBreak == ['\n'] then
    if f.moreBreaks.isEmpty then [' '] else f.moreBreaks
  else f.moreBreaks ++ f.firstBreak

end Fold

def isFlowMark (c : Char) : Bool :=
  c == ',' || c == '[' || c == ']' || c == '{' || c == '}'

/-- The text of a plain scalar, whether a line end follows it, and the rest. The scalar ends before
a colon at the end of a word, a comment, a document mark, or a line that is not indented enough;
inside brackets also before a bracket or a comma. The text so far is kept in reverse. -/
def plainFrom (inFlow : Bool) (indent : Nat) :
    List Char → Option Fold → List Cell → Option (List Char × Bool × List Cell)
  | out, gap, [] => some (out, (gap.map Fold.broken).getD false, [])
  | out, gap, c :: cs =>
    let f := gap.getD {}
    if isBreak c.char then plainFrom inFlow indent out (some (f.addBreak c.char)) cs
    else if isGap c.char then
      if f.broken && c.char == '\t' && c.column < indent then none
      else plainFrom inFlow indent out (some (f.addSpace c.char)) cs
    else if gap.isSome && ((!inFlow && c.column < indent) || startsDocument (c :: cs) ||
        c.char == '#') then
      some (out, f.broken, c :: cs)
    else if inFlow && c.char == ':' && startsWith (fun d => isFlowMark d || d == '?') cs then none
    else if (c.char == ':' && endsWord cs) || (inFlow && isFlowMark c.char) then
      some (out, f.broken, c :: cs)
    else plainFrom inFlow indent (c.char :: (f.join ++ out)) none cs

def readPlain? (inFlow : Bool) (indent : Nat) (cs : List Cell) :
    Option (String × Bool × List Cell) :=
  (plainFrom inFlow indent [] none cs).map fun r => (String.ofList r.1.reverse, r.2)

/-- The text of a scalar in single quotes; two quotes stand for one. -/
def singleFrom : List Char → Fold → List Cell → Option (List Char × List Cell)
  | _, _, [] => none
  | out, f, c :: cs =>
    if startsDocument (c :: cs) then none
    else if isBreak c.char then singleFrom out (f.addBreak c.char) cs
    else if isGap c.char then singleFrom out (f.addSpace c.char) cs
    else
      let out := f.join ++ out
      if c.char == '\'' then
        match cs with
        | d :: ds => if d.char == '\'' then singleFrom ('\'' :: out) {} ds else some (out, cs)
        | [] => some (out, [])
      else singleFrom (c.char :: out) {} cs

def readSingle? (cs : List Cell) : Option (String × List Cell) :=
  (singleFrom [] {} cs).map fun r => (String.ofList r.1.reverse, r.2)

def escape? : Char → Option Char
  | '0' => some '\x00'
  | 'a' => some '\x07'
  | 'b' => some '\x08'
  | 't' => some '\t'
  | '\t' => some '\t'
  | 'n' => some '\n'
  | 'v' => some '\x0b'
  | 'f' => some '\x0c'
  | 'r' => some '\r'
  | 'e' => some '\x1b'
  | ' ' => some ' '
  | '"' => some '"'
  | '/' => some '/'
  | '\\' => some '\\'
  | 'N' => some '\u0085'
  | '_' => some '\u00a0'
  | 'L' => some '\u2028'
  | 'P' => some '\u2029'
  | _ => none

def escapeDigits? : Char → Option Nat
  | 'x' => some 2
  | 'u' => some 4
  | 'U' => some 8
  | _ => none

def hexDigit? (c : Char) : Option Nat :=
  if c.isDigit then some (c.toNat - '0'.toNat)
  else if 'a' ≤ c ∧ c ≤ 'f' then some (c.toNat - 'a'.toNat + 10)
  else if 'A' ≤ c ∧ c ≤ 'F' then some (c.toNat - 'A'.toNat + 10)
  else none

/-- The text of a scalar in double quotes. The pair counts the digits of a code point still to
come and holds its value so far. -/
def doubleFrom : List Char → Fold → Nat × Nat → List Cell → Option (List Char × List Cell)
  | _, _, _, [] => none
  | out, f, (left + 1, value), c :: cs =>
    match hexDigit? c.char with
    | none => none
    | some d =>
      let value := 16 * value + d
      if left = 0 then
        if h : value.isValidChar then doubleFrom (Char.ofNatAux value h :: out) f (0, 0) cs
        else none
      else doubleFrom out f (left, value) cs
  | out, f, (0, _), c :: cs =>
    if startsDocument (c :: cs) then none
    else if isBreak c.char then doubleFrom out (f.addBreak c.char) (0, 0) cs
    else if isGap c.char then doubleFrom out (f.addSpace c.char) (0, 0) cs
    else
      let out := f.join ++ out
      if c.char == '"' then some (out, cs)
      else if c.char == '\\' then
        match cs with
        | [] => none
        | d :: ds =>
          if isBreak d.char then doubleFrom out Fold.escaped (0, 0) ds
          else match escape? d.char, escapeDigits? d.char with
            | some e, _ => doubleFrom (e :: out) {} (0, 0) ds
            | none, some n => doubleFrom out {} (n, 0) ds
            | none, none => none
      else doubleFrom (c.char :: out) {} (0, 0) cs

def readDouble? (cs : List Cell) : Option (String × List Cell) :=
  (doubleFrom [] {} (0, 0) cs).map fun r => (String.ofList r.1.reverse, r.2)

end PatentFilter.Yaml

import PatentFilter.Yaml.Property

/-!
# Tokens from the layout of a text

Block collections have no brackets: they start where a line is indented deeper and end where it is
indented less. Whether a word starts a key is known only when its colon comes, so the place of each
possible key is remembered and the key's token is put in there afterwards.
-/

namespace PatentFilter.Yaml

/-- A place where a key may have started: how many tokens stand before it, and its position. In a
block mapping a line must turn out to be a key. -/
structure PossibleKey where
  required : Bool
  before : Nat
  line : Nat
  column : Nat
  index : Nat
  deriving DecidableEq, Repr

/-- The state of reading. Tokens are held newest first, open block collections innermost first;
outside all of them there is no indentation. Each open bracket may have a possible key of its
own. -/
structure Layout where
  cells : List Cell
  tokens : List Token
  count : Nat
  indent : Option Nat
  outer : List (Option Nat)
  keys : List (Option PossibleKey)
  keyAllowed : Bool
  deriving DecidableEq, Repr

namespace Layout

def ofCells (cells : List Cell) : Layout := ⟨cells, [], 0, none, [], [none], true⟩

def inFlow (s : Layout) : Bool := 1 < s.keys.length

/-- The first column that belongs to the open block collection's content. -/
def contentColumn (s : Layout) : Nat :=
  match s.indent with
  | some n => n + 1
  | none => 0

def emit (t : Token) (s : Layout) : Layout :=
  { s with tokens := t :: s.tokens, count := s.count + 1 }

/-- Puts a token in after the given number of tokens. -/
def insert (before : Nat) (t : Token) (s : Layout) : Layout :=
  let later := s.count - before
  { s with
    tokens := s.tokens.take later ++ t :: s.tokens.drop later
    count := s.count + 1 }

/-- Takes away the block collections that are indented deeper than the column, or all of them,
with the number taken away. -/
def deeperBlocks (column : Option Nat) : Nat → Option Nat → List (Option Nat) →
    Nat × Option Nat × List (Option Nat)
  | ended, some n, o :: os =>
    if column.all (· < n) then deeperBlocks column (ended + 1) o os else (ended, some n, o :: os)
  | ended, indent, outer => (ended, indent, outer)

def unroll (column : Option Nat) (s : Layout) : Layout :=
  if s.inFlow then s
  else
    let (ended, indent, outer) := deeperBlocks column 0 s.indent s.outer
    { s with
      tokens := List.replicate ended .blockEnd ++ s.tokens
      count := s.count + ended
      indent, outer }

/-- Starts a block collection if the column lies deeper than the open one. -/
def roll (column : Nat) (start : Token) (before : Option Nat) (s : Layout) : Layout :=
  if s.inFlow || column < s.contentColumn then s
  else
    let s := { s with indent := some column, outer := s.indent :: s.outer }
    match before with
    | some n => s.insert n start
    | none => s.emit start

/-- Gives up the innermost possible key; one that was required is an error. -/
def dropKey (s : Layout) : Option Layout :=
  match s.keys with
  | some k :: rest => if k.required then none else some { s with keys := none :: rest }
  | _ => some s

/-- Notes that a key may start here. -/
def noteKey (c : Cell) (s : Layout) : Option Layout :=
  if s.keyAllowed then do
    let s ← s.dropKey
    let required := !s.inFlow && s.indent == some c.column
    return { s with keys := some ⟨required, s.count, c.line, c.column, c.index⟩ :: s.keys.tail }
  else some s

/-- A key ends on its line and within 1024 octets. -/
def staleAt (c : Cell) (k : PossibleKey) : Bool :=
  k.line < c.line || k.index + 1024 < c.index

def dropStale (c : Cell) (s : Layout) : Option Layout :=
  if s.keys.any fun k => k.any fun k => k.required && staleAt c k then none
  else some { s with keys := s.keys.map fun k => k.filter fun k => !staleAt c k }

/-- Passes gaps, comments and line ends. Tabs are no indentation. A new line in a block may start
with a key. -/
def skipGap (inFlow : Bool) : Bool → Bool → List Cell → Bool × List Cell
  | _, keyAllowed, [] => (keyAllowed, [])
  | inComment, keyAllowed, c :: cs =>
    if isBreak c.char then skipGap inFlow false (keyAllowed || !inFlow) cs
    else if inComment || c.char == '#' then skipGap inFlow true keyAllowed cs
    else if c.char == ' ' || (c.char == '\t' && (inFlow || !keyAllowed)) ||
        (c.char == byteOrderMark && c.column == 0) then
      skipGap inFlow false keyAllowed cs
    else (keyAllowed, c :: cs)

/-- Ends all block collections before something that stands outside the document's content. -/
def leaveContent (s : Layout) : Option Layout := do
  let s ← (s.unroll none).dropKey
  return { s with keyAllowed := false }

def openFlow (t : Token) (c : Cell) (cs : List Cell) (s : Layout) : Option Layout := do
  let s ← s.noteKey c
  return ({ s with cells := cs, keys := none :: s.keys, keyAllowed := true }).emit t

def closeFlow (t : Token) (cs : List Cell) (s : Layout) : Option Layout := do
  let s ← s.dropKey
  let keys := if s.inFlow then s.keys.tail else s.keys
  return ({ s with cells := cs, keys, keyAllowed := false }).emit t

def addComma (cs : List Cell) (s : Layout) : Option Layout := do
  let s ← s.dropKey
  return ({ s with cells := cs, keyAllowed := true }).emit .comma

def addEntry (c : Cell) (cs : List Cell) (s : Layout) : Option Layout := do
  if !s.inFlow && !s.keyAllowed then none
  let s ← (s.roll c.column .blockSequence none).dropKey
  return ({ s with cells := cs, keyAllowed := true }).emit .entry

def addKey (c : Cell) (cs : List Cell) (s : Layout) : Option Layout := do
  if !s.inFlow && !s.keyAllowed then none
  let s ← (s.roll c.column .blockMapping none).dropKey
  return ({ s with cells := cs, keyAllowed := !s.inFlow }).emit .key

/-- A colon makes a key of what the innermost possible key started. -/
def addValue (c : Cell) (cs : List Cell) (s : Layout) : Option Layout :=
  match s.keys with
  | some k :: rest =>
    let s := { s with cells := cs, keys := none :: rest, keyAllowed := false }
    some (((s.insert k.before .key).roll k.column .blockMapping (some k.before)).emit .value)
  | _ =>
    if !s.inFlow && !s.keyAllowed then none
    else
      let s := s.roll c.column .blockMapping none
      some (({ s with cells := cs, keyAllowed := !s.inFlow }).emit .value)

/-- Adds a token that may be the start of a key. -/
def addInline (c : Cell) (t : Token) (cs : List Cell) (s : Layout) : Option Layout := do
  let s ← s.noteKey c
  return ({ s with cells := cs, keyAllowed := false }).emit t

def addPlain (c : Cell) (cs : List Cell) (s : Layout) : Option Layout := do
  let (text, broken, rest) ← readPlain? s.inFlow s.contentColumn (c :: cs)
  let s ← s.addInline c (.scalar text .plain) rest
  return { s with keyAllowed := s.keyAllowed || broken }

def addBlock (isFolded : Bool) (cs : List Cell) (s : Layout) : Option Layout := do
  let s ← s.dropKey
  let (text, rest) ← readBlock? isFolded s.indent cs
  return ({ s with cells := rest, keyAllowed := true }).emit
    (.scalar text (if isFolded then .folded else .literal))

/-- Characters that cannot start a plain scalar, unless a word goes on after them. -/
def isIndicator (c : Char) : Bool :=
  "-?:,[]\x7b\x7d#&*!|>'\"%@`".toList.contains c

def startsPlain (inFlow : Bool) (c : Char) (cs : List Cell) : Bool :=
  (!isIndicator c && !isGap c && !isBreak c) || (c == '-' && !startsWith isGap cs) ||
    (!inFlow && (c == '?' || c == ':') && !endsWord cs)

/-- The next token starts at the given cell. -/
def addToken (c : Cell) (cs : List Cell) (s : Layout) : Option Layout :=
  let atWordEnd := s.inFlow || endsWord cs
  if c.column == 0 && c.char == '%' then do
    let s ← s.leaveContent
    let (t, rest) ← readDirective? cs
    return ({ s with cells := rest }).emit t
  else if isDocumentMark '-' (c :: cs) then do
    return ({ ← s.leaveContent with cells := cs.drop 2 }).emit .documentStart
  else if isDocumentMark '.' (c :: cs) then do
    return ({ ← s.leaveContent with cells := cs.drop 2 }).emit .documentEnd
  else if c.char == '[' then s.openFlow .flowSequence c cs
  else if c.char == '{' then s.openFlow .flowMapping c cs
  else if c.char == ']' then s.closeFlow .flowSequenceEnd cs
  else if c.char == '}' then s.closeFlow .flowMappingEnd cs
  else if c.char == ',' then s.addComma cs
  else if c.char == '-' && endsWord cs then s.addEntry c cs
  else if c.char == '?' && atWordEnd then s.addKey c cs
  else if c.char == ':' && atWordEnd then s.addValue c cs
  else if c.char == '*' then do
    let (name, rest) ← readName? cs
    s.addInline c (.reference name) rest
  else if c.char == '&' then do
    let (name, rest) ← readName? cs
    s.addInline c (.anchor name) rest
  else if c.char == '!' then do
    let (t, rest) ← readTag? s.inFlow (c :: cs)
    s.addInline c t rest
  else if c.char == '|' && !s.inFlow then s.addBlock false cs
  else if c.char == '>' && !s.inFlow then s.addBlock true cs
  else if c.char == '\'' then do
    let (text, rest) ← readSingle? cs
    s.addInline c (.scalar text .quoted) rest
  else if c.char == '"' then do
    let (text, rest) ← readDouble? cs
    s.addInline c (.scalar text .quoted) rest
  else if startsPlain s.inFlow c.char cs then s.addPlain c cs
  else none

/-- The number of octets from the first cell on, in a text of the given size. -/
def octetsLeft (size : Nat) : List Cell → Nat
  | [] => 0
  | c :: _ => size - c.index

/-- Reads token after token in a text of the given size. -/
def read? (size : Nat) (s : Layout) : Option (List Token) :=
  let (keyAllowed, cells) := skipGap s.inFlow false s.keyAllowed s.cells
  match cells with
  | [] =>
    if s.keys.any fun k => k.any PossibleKey.required then none
    else some ((s.unroll none).tokens.reverse)
  | c :: cs => do
    let s₁ ← ({ s with keyAllowed, cells }).dropStale c
    let s₂ ← (s₁.unroll (some c.column)).addToken c cs
    if _h : octetsLeft size s₂.cells < octetsLeft size s.cells then read? size s₂ else none
termination_by octetsLeft size s.cells

end Layout

def tokens? (text : String) : Option (List Token) :=
  (cells? text.toList).bind fun cs => (Layout.ofCells cs).read? text.utf8ByteSize

end PatentFilter.Yaml

/-!
# Characters with their positions

Indentation decides what a structured text means, so each character is read together with its
line and column. The several forms of a line end become one, except the two separators that stay
what they are when text is folded.
-/

namespace PatentFilter.Yaml

structure Cell where
  char : Char
  line : Nat
  column : Nat
  /-- The number of octets before the character. -/
  index : Nat
  deriving DecidableEq, Repr

def isSeparator (c : Char) : Bool := c == '\u2028' || c == '\u2029'

def isBreak (c : Char) : Bool := c == '\n' || isSeparator c

def isGap (c : Char) : Bool := c == ' ' || c == '\t'

def isPrintable (c : Char) : Bool :=
  let n := c.toNat
  n == 0x9 || n == 0xa || n == 0xd || (0x20 ≤ n && n ≤ 0x7e) || n == 0x85 ||
    (0xa0 ≤ n && n ≤ 0xd7ff) || (0xe000 ≤ n && n ≤ 0xfffd) || 0x10000 ≤ n

def cellsFrom (line column index : Nat) : List Char → List Cell
  | [] => []
  | '\r' :: '\n' :: cs => ⟨'\n', line, column, index⟩ :: cellsFrom (line + 1) 0 (index + 2) cs
  | c :: cs =>
    let d := if c == '\r' || c == '\u0085' then '\n' else c
    ⟨d, line, column, index⟩ ::
      if isBreak d then cellsFrom (line + 1) 0 (index + c.utf8Size) cs
      else cellsFrom line (column + 1) (index + c.utf8Size) cs

def byteOrderMark : Char := '\ufeff'

/-- A text that starts with a byte order mark or has a control character is not read. -/
def cells? (text : List Char) : Option (List Cell) :=
  if text.head? = some byteOrderMark || !text.all isPrintable then none
  else some (cellsFrom 0 0 0 text)

/-- At the end of a word there is a gap, a line end or nothing. -/
def endsWord : List Cell → Bool
  | [] => true
  | c :: _ => isGap c.char || isBreak c.char

def startsWith (p : Char → Bool) : List Cell → Bool
  | [] => false
  | c :: _ => p c.char

/-- Three marks alone at the start of a line, which start or end a document. -/
def isDocumentMark (mark : Char) : List Cell → Bool
  | a :: b :: c :: rest =>
    a.column == 0 && a.char == mark && b.char == mark && c.char == mark && endsWord rest
  | _ => false

def startsDocument (cs : List Cell) : Bool :=
  isDocumentMark '-' cs || isDocumentMark '.' cs

def chars (cs : List Cell) : List Char := cs.map Cell.char

/-- The longest front part whose characters have a property, and the rest. -/
def splitWhile (p : Char → Bool) (cs : List Cell) : List Char × List Cell :=
  (chars (cs.takeWhile fun c => p c.char), cs.dropWhile fun c => p c.char)

end PatentFilter.Yaml

import PatentFilter.Yaml.Cell

/-!
# Block scalars

The lines below a bar or an angle bracket that are indented deeper than what they belong to. A
literal scalar keeps its line ends; a folded one joins lines that are not indented further. What
happens to the line ends after the last line is told in the header, as may be the indentation.
-/

namespace PatentFilter.Yaml

inductive Chomping where
  | strip
  | clip
  | keep
  deriving DecidableEq, Repr

def readChomping : List Cell → Option Chomping × List Cell
  | c :: cs =>
    if c.char == '-' then (some .strip, cs)
    else if c.char == '+' then (some .keep, cs)
    else (none, c :: cs)
  | [] => (none, [])

/-- An indentation given in the header is a digit other than zero. -/
def readIncrement? : List Cell → Option (Option Nat × List Cell)
  | c :: cs =>
    if c.char == '0' then none
    else if c.char.isDigit then some (some (c.char.toNat - '0'.toNat), cs)
    else some (none, c :: cs)
  | [] => some (none, [])

/-- Chomping and indentation, in either order. -/
def readHeader? (cs : List Cell) : Option (Chomping × Option Nat × List Cell) := do
  let (chomping, cs) := readChomping cs
  let (increment, cs) ← readIncrement? cs
  let (later, cs) := if chomping.isNone && increment.isSome then readChomping cs else (none, cs)
  return ((chomping <|> later).getD .clip, increment, cs)

/-- The rest of a line that holds nothing but a comment. -/
def skipLineEnd? (cs : List Cell) : Option (List Cell) :=
  let cs := cs.dropWhile fun c => isGap c.char
  let cs := if startsWith (· == '#') cs then cs.dropWhile fun c => !isBreak c.char else cs
  match cs with
  | [] => some []
  | c :: rest => if isBreak c.char then some rest else none

/-- Passes indentation and empty lines. The answer holds the deepest column reached and the line
ends passed, which are collected in reverse. While the indentation is not known, it may be of any
depth. -/
def skipIndent (indent : Option Nat) :
    Nat → List Char → List Cell → Option (Nat × List Char × List Cell)
  | deepest, breaks, [] => some (deepest, breaks.reverse, [])
  | deepest, breaks, c :: cs =>
    let outside := match indent with
      | some n => c.column < n
      | none => true
    if outside && c.char == ' ' then skipIndent indent (max deepest (c.column + 1)) breaks cs
    else if outside && c.char == '\t' then none
    else if isBreak c.char then
      skipIndent indent (max deepest c.column) (c.char :: breaks) cs
    else some (max deepest c.column, breaks.reverse, c :: cs)

theorem length_le_of_skipIndent {indent : Option Nat} {deepest d : Nat} {breaks bs : List Char}
    {cs rest : List Cell} (h : skipIndent indent deepest breaks cs = some (d, bs, rest)) :
    rest.length ≤ cs.length := by
  fun_induction skipIndent indent deepest breaks cs with
  | case1 => simp_all
  | case2 _ _ _ _ _ _ ih => exact Nat.le_succ_of_le (ih h)
  | case3 => cases h
  | case4 _ _ _ _ _ _ _ _ ih => exact Nat.le_succ_of_le (ih h)
  | case5 => simp_all

/-- The characters of a line, its line end if it has one, and the cells after it. -/
def cutLine (cs : List Cell) : List Char × List Char × List Cell :=
  let (line, rest) := splitWhile (fun c => !isBreak c) cs
  (line, chars (rest.take 1), rest.tail)

theorem length_cutLine_lt {cs : List Cell} (h : cs ≠ []) : (cutLine cs).2.2.length < cs.length := by
  have sub := (cs.dropWhile_sublist fun c => !isBreak c.char).length_le
  have pos := List.length_pos_iff.mpr h
  simp only [cutLine, splitWhile, List.length_tail]
  omega

/-- The lines at the given indentation, collected in reverse. The line end before a line and the
empty lines before it are kept apart, for folding may change them; so is whether the line before
began with a gap. -/
def blockLines (isFolded : Bool) (indent : Nat) (lines : List (List Char))
    (before empty : List Char) (gapBefore : Bool) :
    List Cell → Option (List Char × List Char × List Char × List Cell)
  | [] => some (lines.reverse.flatten, before, empty, [])
  | c :: cs =>
    if c.column != indent then some (lines.reverse.flatten, before, empty, c :: cs)
    else
      let gap := isGap c.char
      let joined :=
        if isFolded && before == ['\n'] && !gapBefore && !gap then
          if empty.isEmpty then [' '] else empty
        else before ++ empty
      let (line, lineEnd, _) := cutLine (c :: cs)
      match _h : skipIndent (some indent) 0 [] (cutLine (c :: cs)).2.2 with
      | none => none
      | some (_, empty, rest) =>
        blockLines isFolded indent ((joined ++ line) :: lines) lineEnd empty gap rest
termination_by cs => cs.length
decreasing_by
  exact Nat.lt_of_le_of_lt (length_le_of_skipIndent _h) (length_cutLine_lt (List.cons_ne_nil c cs))

/-- A block scalar after its mark, inside something indented by the given number of columns, or
inside nothing. -/
def readBlock? (isFolded : Bool) (parent : Option Nat) (cs : List Cell) :
    Option (String × List Cell) := do
  let (chomping, increment, cs) ← readHeader? cs
  let cs ← skipLineEnd? cs
  let known := increment.map fun n => parent.getD 0 + n
  let (deepest, empty, cs) ← skipIndent known 0 [] cs
  let least := match parent with
    | some n => n + 1
    | none => 1
  let indent := known.getD (max deepest least)
  let (out, before, empty, cs) ← blockLines isFolded indent [] [] empty false cs
  let tail := match chomping with
    | .strip => []
    | .clip => before
    | .keep => before ++ empty
  return (String.ofList (out ++ tail), cs)

end PatentFilter.Yaml

/-!
# Blank characters

The white space of the standard character table, twenty-five code points in all. A text is blank
when it holds nothing else, so the empty text is blank.
-/

namespace PatentFilter.Text

def isBlank (c : Char) : Bool :=
  let n := c.toNat
  (0x9 ≤ n && n ≤ 0xd) || n == 0x20 || n == 0x85 || n == 0xa0 || n == 0x1680 ||
    (0x2000 ≤ n && n ≤ 0x200a) || n == 0x2028 || n == 0x2029 || n == 0x202f || n == 0x205f ||
    n == 0x3000

def allBlank (s : String) : Bool :=
  s.toList.all isBlank

theorem allBlank_eq_false_iff {s : String} :
    allBlank s = false ↔ ∃ c ∈ s.toList, isBlank c = false := by
  simp [allBlank]

/-- The first run of characters that are not blank. -/
def firstWord (cs : List Char) : List Char :=
  (cs.dropWhile isBlank).takeWhile fun c => !isBlank c

end PatentFilter.Text

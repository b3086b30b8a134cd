/-!
# Element paths

An absolute path names the elements from the root down to one element.
-/

namespace PatentFilter.Markup

structure Path where
  names : List String
  deriving DecidableEq, Repr

namespace Path

def length (p : Path) : Nat := p.names.length

def isEmpty (p : Path) : Bool := p.names.isEmpty

def extend (p : Path) (below : List String) : Path := ⟨p.names ++ below⟩

/-- Whether the open elements, outermost first, lie exactly along the path. -/
def leadsTo (p : Path) (names : List String) : Bool := p.names == names

theorem leadsTo_iff {p : Path} {names : List String} : p.leadsTo names = true ↔ p.names = names := by
  simp [leadsTo]

def text (p : Path) : String :=
  String.join (p.names.map fun n => "/" ++ n)

end Path

end PatentFilter.Markup

import PatentFilter.Value.Variant

/-!
# Classification codes

A document is classified under one of two schemes. A CPC code has four hierarchy levels, a USPC
code one; the text of a code is its levels run together.
-/

namespace PatentFilter

inductive Scheme where
  | cpc
  | uspc
  deriving DecidableEq, Repr

def Scheme.name : Scheme → String
  | .cpc => "CPC"
  | .uspc => "USPC"

instance : Variant Scheme where
  all := [.cpc, .uspc]
  tag
    | .cpc => "cpc"
    | .uspc => "uspc"

@[simp] theorem Scheme.ofTag_tag (s : Scheme) : Variant.ofTag (Variant.tag s) = .ok s := by
  cases s <;> rfl

inductive Level where
  | sectionLetter
  | mainClass
  | subClass
  | mainGroup
  deriving DecidableEq, Repr

def Level.name : Level → String
  | .sectionLetter => "section"
  | .mainClass => "main_class"
  | .subClass => "sub_class"
  | .mainGroup => "main_group"

inductive Code where
  | cpc (sectionLetter mainClass subClass mainGroup : String)
  | uspc (mainClass : String)
  deriving DecidableEq, Repr

def Scheme.levels : Scheme → List Level
  | .cpc => [.sectionLetter, .mainClass, .subClass, .mainGroup]
  | .uspc => [.mainClass]

namespace Code

def scheme : Code → Scheme
  | cpc .. => .cpc
  | uspc .. => .uspc

/-- The contents of the levels, from the top of the hierarchy down. -/
def parts : Code → List String
  | cpc a b c d => [a, b, c, d]
  | uspc a => [a]

def fields (c : Code) : List (Level × String) :=
  c.scheme.levels.zip c.parts

theorem length_parts (c : Code) : c.parts.length = c.scheme.levels.length := by
  cases c <;> rfl

def text (c : Code) : String :=
  String.join c.parts

theorem toList_text (c : Code) : c.text.toList = c.parts.flatMap String.toList :=
  String.toList_join

theorem notMem_text {c : Code} {ch : Char} (h : ∀ part ∈ c.parts, ch ∉ part.toList) :
    ch ∉ c.text.toList := by
  rw [toList_text, List.mem_flatMap]
  rintro ⟨part, hPart, hMem⟩
  exact h part hPart hMem

/-- The code of a scheme with the given contents, if there are as many as levels. -/
def ofParts? : Scheme → List String → Option Code
  | .cpc, [a, b, c, d] => some (cpc a b c d)
  | .uspc, [a] => some (uspc a)
  | _, _ => none

theorem ofParts?_eq_some_iff {s : Scheme} {ps : List String} {c : Code} :
    ofParts? s ps = some c ↔ c.scheme = s ∧ c.parts = ps := by
  constructor
  · intro h
    unfold ofParts? at h
    split at h <;> simp at h <;> subst h <;> exact ⟨rfl, rfl⟩
  · rintro ⟨rfl, rfl⟩
    cases c <;> rfl

def ofScheme (s : Scheme) (codes : List Code) : List Code :=
  codes.filter fun c => c.scheme = s

end Code

end PatentFilter

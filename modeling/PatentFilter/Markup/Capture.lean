import PatentFilter.Markup.Path
import PatentFilter.Markup.Token

/-!
# Texts at element paths, in one pass

The text of the elements at given paths is collected while the tokens go by: open elements stand
on a stack, and every open element that lies at a target path has a capture that receives all text
inside it. Under any one parent only the first element at a path is captured. An end tag closes
the nearest open element of its name with everything inside it, and is ignored if there is none;
the end of the input closes everything.
-/

namespace PatentFilter.Markup

/-- An open element. Numbers are given out in the order of opening. -/
structure Frame where
  name : String
  number : Nat
  deriving DecidableEq, Repr

/-- A path whose elements are wanted. -/
structure Target where
  path : Path
  /-- The parent of the last element captured here. -/
  takenUnder : Option Nat
  values : List String
  deriving DecidableEq, Repr

/-- An open element whose text is being collected: the position of its target, how many elements
were open once it was, and the text so far. -/
structure Capture where
  target : Nat
  depth : Nat
  text : String
  deriving DecidableEq, Repr

/-- Where a pass stands. The innermost open element comes first, the oldest capture too. -/
structure Progress where
  frames : List Frame
  opened : Nat
  targets : List Target
  captures : List Capture
  deriving DecidableEq, Repr

def namesOf (frames : List Frame) : List String :=
  (frames.map Frame.name).reverse

/-- Whether the open elements, innermost first, have the given names. The first difference ends
the comparison. -/
def areNamed : List Frame → List String → Bool
  | [], [] => true
  | f :: fs, n :: ns => f.name == n && areNamed fs ns
  | _, _ => false

theorem areNamed_iff {frames : List Frame} {names : List String} :
    areNamed frames names = true ↔ frames.map Frame.name = names := by
  induction frames generalizing names with
  | nil => cases names <;> simp [areNamed]
  | cons f fs ih => cases names <;> simp [areNamed, ih]

def standsAt (frames : List Frame) (p : Path) : Bool :=
  areNamed frames p.names.reverse

theorem standsAt_eq_leadsTo (frames : List Frame) (p : Path) :
    standsAt frames p = p.leadsTo (namesOf frames) := by
  rw [Bool.eq_iff_iff, standsAt, areNamed_iff, Path.leadsTo_iff, namesOf]
  constructor
  · intro h
    rw [h, List.reverse_reverse]
  · intro h
    rw [h, List.reverse_reverse]

/-- A target takes an element that has just been opened at its path, unless the last one that it
took has the same parent. -/
def Target.takes (t : Target) (frames : List Frame) (parent : Option Nat) : Bool :=
  standsAt frames t.path && (parent.isNone || t.takenUnder != parent)

namespace Progress

def start (paths : List Path) : Progress :=
  ⟨[], 0, paths.map fun p => ⟨p, none, []⟩, []⟩

def names (p : Progress) : List String := namesOf p.frames

def addText (s : String) (p : Progress) : Progress :=
  { p with captures := p.captures.map fun c => { c with text := c.text ++ s } }

def openElement (name : String) (p : Progress) : Progress :=
  let parent := p.frames.head?.map Frame.number
  let frames := ⟨name, p.opened + 1⟩ :: p.frames
  let fresh := p.targets.zipIdx.filterMap fun t =>
    if t.1.takes frames parent then some ⟨t.2, frames.length, ""⟩ else none
  { frames
    opened := p.opened + 1
    targets := p.targets.map fun t =>
      if t.takes frames parent then { t with takenUnder := parent } else t
    captures := p.captures ++ fresh }

@[simp] theorem names_addText (s : String) (p : Progress) : (p.addText s).names = p.names := rfl

@[simp] theorem names_openElement (name : String) (p : Progress) :
    (p.openElement name).names = p.names ++ [name] := by
  simp [openElement, names, namesOf]

/-- A finished capture adds its text to the values of its target. -/
def deliver (targets : List Target) (c : Capture) : List Target :=
  targets.modify c.target fun t => { t with values := t.values ++ [c.text] }

@[simp] theorem length_deliver (targets : List Target) (c : Capture) :
    (deliver targets c).length = targets.length := by
  simp [deliver]

theorem length_foldl_deliver (targets : List Target) (cs : List Capture) :
    (cs.foldl deliver targets).length = targets.length := by
  induction cs generalizing targets with
  | nil => rfl
  | cons c cs ih => rw [List.foldl_cons, ih, length_deliver]

/-- Finishes the captures of the elements that lie deeper than the given depth. Captures stand in
the order of their depths, so these come last. -/
def finishBelow (depth : Nat) (p : Progress) : Progress :=
  { p with
    captures := p.captures.takeWhile (·.depth ≤ depth)
    targets := (p.captures.dropWhile (·.depth ≤ depth)).foldl deliver p.targets }

def closeElement (name : String) (p : Progress) : Progress :=
  match p.frames.dropWhile (·.name != name) with
  | [] => p
  | _ :: outer => finishBelow outer.length { p with frames := outer }

def step (p : Progress) : Token → Progress
  | .opening name => p.openElement name
  | .closing name => p.closeElement name
  | .text s => p.addText s
  | .skipped => p

@[simp] theorem length_targets_finishBelow (depth : Nat) (p : Progress) :
    (p.finishBelow depth).targets.length = p.targets.length :=
  length_foldl_deliver ..

@[simp] theorem length_targets_step (p : Progress) (t : Token) :
    (p.step t).targets.length = p.targets.length := by
  cases t with
  | opening name => simp [step, openElement]
  | closing name =>
    simp only [step, closeElement]
    split
    · rfl
    · rw [length_targets_finishBelow]
  | text s => rfl
  | skipped => rfl

theorem length_targets_foldl (p : Progress) (ts : List Token) :
    (ts.foldl step p).targets.length = p.targets.length := by
  induction ts generalizing p with
  | nil => rfl
  | cons t ts ih => rw [List.foldl_cons, ih, length_targets_step]

end Progress

/-- The texts of the elements at each of the paths, in document order, path by path. -/
def collect (paths : List Path) (document : String) : List (List String) :=
  let reached := foldTokens Progress.step (Progress.start paths) document.toList
  (reached.finishBelow 0).targets.map Target.values

end PatentFilter.Markup

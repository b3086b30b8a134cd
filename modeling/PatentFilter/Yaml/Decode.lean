import PatentFilter.Yaml.Scalar

/-!
# Decoding nodes

A reader of nodes follows references, as often as the size of the document allows, and enters
nested collections up to a fixed depth. A fault is told with the trail to the innermost node whose
reader failed.
-/

namespace PatentFilter.Yaml

/-- A step on the way to a node. A key has a name if it is a scalar, not a reference to one. -/
inductive Step where
  | key (name : String)
  | unnamedKey
  | item (index : Nat)
  deriving DecidableEq, Repr

/-- The text of a trail whose innermost step comes first. -/
def trailText : List Step → String
  | [] => ""
  | .item i :: outer => trailText outer ++ "[" ++ toString i ++ "]"
  | .key name :: outer => (if outer.isEmpty then "" else trailText outer ++ ".") ++ name
  | .unnamedKey :: outer => (if outer.isEmpty then "" else trailText outer ++ ".") ++ "?"

/-- A fault, with its trail once that is known. -/
structure Misfit where
  trail : Option (List Step)
  fault : ValueFault

/-- Faults of the document as a whole are told without a trail. -/
def Misfit.message (m : Misfit) : String :=
  let text := m.fault.message .yaml
  match m.fault, m.trail with
  | .tooDeep, _ => text
  | .tooManyReferences, _ => text
  | _, none => text
  | _, some [] => text
  | _, some trail => trailText trail ++ ": " ++ text

/-- Readers see the anchors and count the references that they may still follow. -/
abbrev Decode := ReaderT (List (Nat × Node)) (StateT Nat (Except Misfit))

/-- Where a node stands, and how many collections may still be entered there. -/
structure Spot where
  trail : List Step
  depth : Nat
  deriving DecidableEq, Repr

namespace Spot

def root : Spot := ⟨[], 128⟩

def atKey (s : Spot) : Node → Spot
  | .scalar name .. => ⟨.key name :: s.trail, s.depth⟩
  | _ => ⟨.unnamedKey :: s.trail, s.depth⟩

def atItem (s : Spot) (i : Nat) : Spot := ⟨.item i :: s.trail, s.depth⟩

end Spot

namespace Decode

variable {α : Type}

def fail (f : ValueFault) : Decode α := throw ⟨none, f⟩

def lift : Except ValueFault α → Decode α
  | .ok a => return a
  | .error f => fail f

/-- Gives faults their trail, unless they have one from further inside. -/
def within (s : Spot) (x : Decode α) : Decode α := fun anchors left =>
  match x anchors left with
  | .error ⟨none, f⟩ => .error ⟨some s.trail, f⟩
  | outcome => outcome

/-- The node that a node stands for: itself unless it is a reference. -/
def target : Node → Decode Node
  | .reference anchor => do
    match ← get with
    | 0 => fail .tooManyReferences
    | left + 1 => do
      set left
      match (← read).lookup anchor with
      | some n => return n
      | none => fail .tooManyReferences
  | n => return n

def wrongNode (expected : String) (n : Node) : Decode α := do
  fail (.wrongType (← lift n.meaning) expected)

def enter (s : Spot) : Decode Spot :=
  match s.depth with
  | 0 => fail .tooDeep
  | d + 1 => return { s with depth := d }

/-- Any scalar as it was written, whatever it means. -/
def writtenText (expected : String) (s : Spot) (n : Node) : Decode String := within s do
  match ← target n with
  | .scalar text .. => return text
  | n => wrongNode expected n

/-- A written text that may be left out or be a word for the absent value. With a tag it can only
be absent if the tag says so. -/
def optionalText (expected : String) (s : Spot) (n : Node) : Decode (Option String) := do
  match ← target n with
  | .scalar text style (some tag) =>
    if tag == Tag.standard "null" then
      if isAbsentWord text then return none else fail (.wrongValue (.text text) "null")
    else some <$> writtenText expected s (.scalar text style tag)
  | .scalar text .plain none =>
    if text.isEmpty || isAbsentWord text then return none else return some text
  | n => some <$> writtenText expected s n

/-- A truth value. A literal block can hold one if its tag says so. -/
def bool (s : Spot) (n : Node) : Decode Bool := within s do
  let n ← target n
  match n with
  | .scalar text style tag =>
    if style == .plain || (style == .literal && tag == some (Tag.standard "bool")) then
      match boolWord? text with
      | some b => return b
      | none => wrongNode "a boolean" n
    else wrongNode "a boolean" n
  | n => wrongNode "a boolean" n

def items (s : Spot) (n : Node) : Decode (Spot × List Node) := do
  match ← target n with
  | .sequence items _ => return (← enter s, items)
  | .scalar "" .plain _ => return (s, [])
  | n => wrongNode "a sequence" n

def entries (expected : String) (s : Spot) (n : Node) : Decode (Spot × List (Node × Node)) := do
  match ← target n with
  | .mapping entries _ => return (← enter s, entries)
  | .scalar "" .plain _ => return (s, [])
  | n => wrongNode expected n

def scalarValue (expected text : String) (style : Style) (tag : Option Tag) : Decode Value := do
  if tag.any Tag.namesVariant then fail .variantInside
  match ← lift (scalarMeaning text style tag) with
  | .absent => return .absent
  | .bool b => return .bool b
  | .nat n => return .nat n
  | .minus n => return .minus n
  | .float x => return .float x
  | .text t => return .text t
  | f => fail (.wrongType f expected)

/-- A value whose type is still open. The depth is that of the trail's end. -/
def openValue : Nat → List Step → String → Node → Decode Value
  | depth, trail, expected, n => within ⟨trail, depth⟩ do
    match ← target n, depth with
    | .scalar text style tag, _ => scalarValue expected text style tag
    | .sequence items tag, d => do
      if tag.any Tag.namesVariant then fail .variantInside
      match d with
      | 0 => fail .tooDeep
      | d + 1 => .list <$> items.zipIdx.mapM fun (n, i) =>
          openValue d (.item i :: trail) "any value" n
    | .mapping entries tag, d => do
      if tag.any Tag.namesVariant then fail .variantInside
      match d with
      | 0 => fail .tooDeep
      | d + 1 => .map <$> entries.mapM fun (k, v) => do
          let key ← openValue d trail "any value" k
          return (key, ← openValue d (Spot.atKey ⟨trail, d⟩ k).trail "any value" v)
    | .reference _, _ => fail .tooManyReferences

end Decode

/-- Reads a document. References may be followed a hundred times for each of its marks. -/
def Document.decode {α : Type} (d : Document) (x : Decode α) : Except Misfit α :=
  (x.run d.anchors).run' (100 * d.marks)

end PatentFilter.Yaml

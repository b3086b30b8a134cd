import PatentFilter.Yaml.Layout
import PatentFilter.Yaml.Node

/-!
# Documents from tokens

A text holds one document at most. Anchors are entered where they stand, before what is inside the
node that carries them.
-/

namespace PatentFilter.Yaml

/-- An anchor's number, its place in the order of entering, and the node once it is read. -/
structure Anchored where
  number : Nat
  entered : Nat
  node : Option Node

structure Composer where
  tokens : List Token
  handles : List (String × Tag)
  names : List (String × Nat)
  anchored : List Anchored

abbrev Compose := StateT Composer Option

namespace Compose

def peek : Compose (Option Token) :=
  return (← get).tokens.head?

def advance : Compose Unit :=
  modify fun s => { s with tokens := s.tokens.tail }

def nextIs (t : Token) : Compose Bool :=
  return (← peek) == some t

def nextIn (ts : List Token) : Compose Bool :=
  return (← peek).any fun t => ts.contains t

def accept (t : Token) : Compose Bool := do
  let found ← nextIs t
  if found then advance
  return found

def expect (t : Token) : Compose Unit := do
  if !(← accept t) then failure

def anchorNumber (name : String) : Compose Nat := do
  match (← get).names.lookup name with
  | some n => return n
  | none => failure

/-- Enters an anchor. A name used before gets a new number and loses the old one. -/
def enter (name : String) : Compose Nat := do
  let s ← get
  let number := s.names.length
  set { s with
    names := (name, number) :: s.names.filter fun known => known.1 != name
    anchored := ⟨number, s.anchored.length, none⟩ :: s.anchored }
  return s.anchored.length

def keep (entered : Option Nat) (n : Node) : Compose Node := do
  match entered with
  | none => return n
  | some e =>
    modify fun s => { s with
      anchored := s.anchored.map fun a => if a.entered == e then { a with node := some n } else a }
    return n

def expandTag (handle : String) (suffix : Tag) : Compose Tag := do
  if handle.isEmpty then return suffix
  match (← get).handles.lookup handle with
  | some expansion => return expansion ++ suffix
  | none => failure

def readAnchor : Compose (Option String) := do
  match ← peek with
  | some (.anchor name) =>
    advance
    return some name
  | _ => return none

def readTag : Compose (Option Tag) := do
  match ← peek with
  | some (.tag handle suffix) =>
    advance
    return some (← expandTag handle suffix)
  | _ => return none

/-- An anchor and a tag, in either order. -/
def properties : Compose (Option String × Option Tag) := do
  let anchor ← readAnchor
  let tag ← readTag
  if anchor.isNone && tag.isSome then return (← readAnchor, tag)
  return (anchor, tag)

/-- What is read as a node, or an empty one in front of certain tokens. -/
def nodeUnless (stops : List Token) (node : Compose Node) : Compose Node := do
  if ← nextIn stops then return .empty none
  node

mutual

/-- A node. Outside brackets it may be a block collection; as a key or a value of a block mapping
it may be a sequence that is not indented. The number bounds the depth of calls. -/
def node : Nat → Bool → Bool → Compose Node
  | 0, _, _ => failure
  | fuel + 1, inBlock, unindented => do
    if let some (.reference name) ← peek then
      advance
      return .reference (← anchorNumber name)
    let (anchor, tag) ← properties
    let entered ← match anchor with
      | some name => do pure (some (← enter name))
      | none => pure none
    let n ← match ← peek with
      | some .entry =>
        if unindented then do
          pure (.sequence (← unindentedItems fuel []) tag)
        else orEmpty anchor tag
      | some (.scalar text style) => do
        advance
        pure (.scalar text style tag)
      | some .flowSequence => do
        advance
        pure (.sequence (← flowItems fuel true []) tag)
      | some .flowMapping => do
        advance
        pure (.mapping (← flowEntries fuel true []) tag)
      | some .blockSequence =>
        if inBlock then do
          advance
          pure (.sequence (← blockItems fuel []) tag)
        else orEmpty anchor tag
      | some .blockMapping =>
        if inBlock then do
          advance
          pure (.mapping (← blockEntries fuel []) tag)
        else orEmpty anchor tag
      | _ => orEmpty anchor tag
    keep entered n
where
  /-- A node may be left out only if it has properties. -/
  orEmpty (anchor : Option String) (tag : Option Tag) : Compose Node :=
    if anchor.isSome || tag.isSome then return .empty tag else failure

def blockItems : Nat → List Node → Compose (List Node)
  | 0, _ => failure
  | fuel + 1, items => do
    if ← accept .entry then
      let n ← nodeUnless [.entry, .blockEnd] (node fuel true false)
      blockItems fuel (n :: items)
    else
      expect .blockEnd
      return items.reverse

def unindentedItems : Nat → List Node → Compose (List Node)
  | 0, _ => failure
  | fuel + 1, items => do
    if ← accept .entry then
      let n ← nodeUnless [.entry, .key, .value, .blockEnd] (node fuel true false)
      unindentedItems fuel (n :: items)
    else return items.reverse

def blockEntries : Nat → List (Node × Node) → Compose (List (Node × Node))
  | 0, _ => failure
  | fuel + 1, entries => do
    if ← accept .key then
      let k ← nodeUnless [.key, .value, .blockEnd] (node fuel true true)
      let v ← if ← accept .value then
          nodeUnless [.key, .value, .blockEnd] (node fuel true true)
        else pure (.empty none)
      blockEntries fuel ((k, v) :: entries)
    else
      expect .blockEnd
      return entries.reverse

/-- The items of a bracketed sequence. An item may be a single entry of a mapping; its key cannot
be left out without also passing the token after the key's mark. -/
def flowItems : Nat → Bool → List Node → Compose (List Node)
  | 0, _, _ => failure
  | fuel + 1, first, items => do
    if ← accept .flowSequenceEnd then return items.reverse
    if !first then expect .comma
    if ← accept .flowSequenceEnd then return items.reverse
    if ← accept .key then
      let k ← if ← nextIn [.value, .comma, .flowSequenceEnd] then do
          advance
          pure (.empty none)
        else node fuel false false
      let v ← if ← accept .value then
          nodeUnless [.comma, .flowSequenceEnd] (node fuel false false)
        else pure (.empty none)
      flowItems fuel false (.mapping [(k, v)] none :: items)
    else
      let n ← node fuel false false
      flowItems fuel false (n :: items)

def flowEntries : Nat → Bool → List (Node × Node) → Compose (List (Node × Node))
  | 0, _, _ => failure
  | fuel + 1, first, entries => do
    if ← accept .flowMappingEnd then return entries.reverse
    if !first then expect .comma
    if ← accept .flowMappingEnd then return entries.reverse
    if ← accept .key then
      let k ← nodeUnless [.value, .comma, .flowMappingEnd] (node fuel false false)
      let v ← if ← accept .value then
          nodeUnless [.comma, .flowMappingEnd] (node fuel false false)
        else pure (.empty none)
      flowEntries fuel false ((k, v) :: entries)
    else
      let k ← node fuel false false
      flowEntries fuel false ((k, .empty none) :: entries)

end

/-- The directives before a document: one version at most, and each handle once. -/
def directives : List Token → Bool → Compose (List Token)
  | .version major minor :: ts, versioned => do
    if versioned || major != 1 || (minor != 1 && minor != 2) then failure
    directives ts true
  | .handle name expansion :: ts, versioned => do
    let s ← get
    if (s.handles.lookup name).isSome then failure
    set { s with handles := (name, expansion) :: s.handles }
    directives ts versioned
  | ts, _ => return ts

def isDirective : Token → Bool
  | .version .. => true
  | .handle .. => true
  | _ => false

/-- Handles that need no directive. -/
def standardHandles : List (String × Tag) :=
  [("!", [Tag.mark]), ("!!", Tag.standard "")]

def root (fuel : Nat) : Compose (Option Node) := do
  match ← peek with
  | none => return none
  | some t =>
    let explicit := isDirective t || t == .documentStart
    let rest ← directives (← get).tokens false
    modify fun s => { s with tokens := rest, handles := s.handles ++ standardHandles }
    if explicit then
      expect .documentStart
      match ← peek with
      | none => return some (.empty none)
      | some t =>
        if isDirective t || t == .documentStart || t == .documentEnd then
          return some (.empty none)
        return some (← node fuel true false)
    else return some (← node fuel true false)

end Compose

def document? (text : String) : Option Document := do
  let tokens ← tokens? text
  let (root, s) ← (Compose.root (2 * tokens.length + 2)).run ⟨tokens, [], [], []⟩
  if s.tokens.all (· == .documentEnd) then
    return ⟨root, s.anchored.filterMap fun a => a.node.map fun n => (a.number, n)⟩
  else none

end PatentFilter.Yaml

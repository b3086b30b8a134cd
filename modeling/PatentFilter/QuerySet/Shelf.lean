import PatentFilter.QuerySet.Basic

/-!
# Sets side by side

Sets are made in slots. A slot takes an empty set, the set for a list of codes or one more query; a
copy gets a slot of its own. A command that fails leaves every set as it was.
-/

namespace PatentFilter

abbrev Shelf := List QuerySet

inductive ShelfCommand where
  | new
  | compile (wanted : List Code)
  | push (code : Code)
  | clone
  deriving DecidableEq, Repr

inductive ShelfAnswer where
  | done
  | fault (f : CodeFault)
  | slot (n : Nat)
  | noSlot
  deriving DecidableEq, Repr

namespace Shelf

def opening : Shelf := [.empty]

def step (sets : Shelf) (slot : Nat) (c : ShelfCommand) : Shelf × ShelfAnswer :=
  match sets[slot]? with
  | none => (sets, .noSlot)
  | some s =>
    match c with
    | .new => (sets.set slot .empty, .done)
    | .compile wanted =>
      match (QuerySet.compile wanted).1 with
      | .error f => (sets, .fault f)
      | .ok compiled => (sets.set slot compiled, .done)
    | .push code =>
      match Query.ofCode code with
      | .error f => (sets, .fault f)
      | .ok q => (sets.set slot (s.push q), .done)
    | .clone => (sets ++ [s], .slot sets.length)

def run (sets : Shelf) (cs : List (Nat × ShelfCommand)) : Shelf :=
  cs.foldl (fun sets c => (sets.step c.1 c.2).1) sets

end Shelf

end PatentFilter

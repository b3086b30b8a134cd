import PatentFilter.Query.Expression
import PatentFilter.Log

/-!
# Sets of queries

Queries in the order in which they are tried, with a table of the distinct paths that they read:
row by row, one slot per test, the position of the test's path in the table.
-/

namespace PatentFilter

structure QuerySet where
  queries : List Query
  paths : List Markup.Path
  slots : List (List Nat)
  deriving DecidableEq, Repr

namespace QuerySet

def empty : QuerySet := ⟨[], [], []⟩

/-- The position of a path in a table, which is extended if the path is new. -/
def slotOf (paths : List Markup.Path) (p : Markup.Path) : List Markup.Path × Nat :=
  match paths.idxOf? p with
  | some i => (paths, i)
  | none => (paths ++ [p], paths.length)

theorem getElem?_slotOf (paths : List Markup.Path) (p : Markup.Path) :
    (slotOf paths p).1[(slotOf paths p).2]? = some p := by
  unfold slotOf
  split
  · next i h =>
    obtain ⟨hi, hp, _⟩ := List.idxOf?_eq_some_iff.mp h
    rw [List.getElem?_eq_getElem hi]
    exact congrArg some hp
  · simp

/-- A table only grows, and at its end. -/
theorem prefix_slotOf (paths : List Markup.Path) (p : Markup.Path) :
    paths <+: (slotOf paths p).1 := by
  unfold slotOf
  split
  · exact List.prefix_rfl
  · exact List.prefix_append ..

def slotsOf : List Markup.Path → List Markup.Path → List Markup.Path × List Nat
  | paths, [] => (paths, [])
  | paths, p :: ps =>
    let (paths, i) := slotOf paths p
    let (paths, row) := slotsOf paths ps
    (paths, i :: row)

def push (s : QuerySet) (q : Query) : QuerySet :=
  let (paths, row) := slotsOf s.paths (q.tests.map q.valuePath)
  ⟨s.queries ++ [q], paths, s.slots ++ [row]⟩

def ofQueries (qs : List Query) : QuerySet :=
  qs.foldl push empty

theorem queries_foldl_push (s : QuerySet) (qs : List Query) :
    (qs.foldl push s).queries = s.queries ++ qs := by
  induction qs generalizing s with
  | nil => simp
  | cons q qs ih => rw [List.foldl_cons, ih]; simp [push]

@[simp] theorem queries_ofQueries (qs : List Query) : (ofQueries qs).queries = qs := by
  rw [ofQueries, queries_foldl_push]
  rfl

/-- The wanted codes in the order in which they are compiled. -/
def compileOrder (wanted : List Code) : List Code :=
  Code.ofScheme .cpc wanted ++ Code.ofScheme .uspc wanted

/-- Builds queries until a code has none, with a log entry for each query built. -/
def build : List Code → Except CodeFault (List Query) × Log
  | [] => (.ok [], [])
  | c :: cs =>
    match Query.ofCode c with
    | .error fault => (.error fault, [])
    | .ok q =>
      let (rest, log) := build cs
      (rest.map (q :: ·), .queryBuilt q.scheme q.text :: log)

theorem fst_build (codes : List Code) : (build codes).1 = codes.mapM Query.ofCode := by
  induction codes with
  | nil => rfl
  | cons c cs ih =>
    rw [List.mapM_cons, ← ih, build]
    cases Query.ofCode c with
    | error fault => rfl
    | ok q => cases h : (build cs).1 <;> simp [h, Except.map, bind, Except.bind, pure, Except.pure]

/-- The set for a list of wanted codes. One code without a query is enough to have no set. -/
def compile (wanted : List Code) : Except CodeFault QuerySet × Log :=
  match build (compileOrder wanted) with
  | (.error fault, log) => (.error fault, log)
  | (.ok qs, log) =>
    let s := ofQueries qs
    (.ok s, log ++ [.setCompiled wanted.length s.queries.length s.paths.length])

end QuerySet

end PatentFilter

import PatentFilter.Markup.Capture
import PatentFilter.QuerySet.Basic

/-!
# Evaluating a set of queries

A document is read once for all paths of the set. The first query, of it the first test, and of it
the first value in document order decide.
-/

namespace PatentFilter

/-- Which test of which query accepted which value. -/
structure Hit where
  query : Nat
  test : Nat
  location : Location
  value : String
  deriving DecidableEq, Repr

/-- A hit with the query that it belongs to. -/
structure Firing where
  query : Query
  test : FieldTest
  hit : Hit
  deriving DecidableEq, Repr

def Firing.text (f : Firing) : String :=
  f.test.expression f.query.anchor

namespace QuerySet

/-- The first hit of one query, its values looked up by slot. -/
def hitOf? (values : List (List String)) (i : Nat) (q : Query) (row : List Nat) : Option Hit :=
  (q.tests.zip row).zipIdx.findSome? fun ((t, slot), j) =>
    ((values.getD slot []).find? t.accepts).map fun v => ⟨i, j, t.place.location, v⟩

def evaluate (s : QuerySet) (document : String) : Option Hit :=
  if s.queries.isEmpty then none
  else
    let values := Markup.collect s.paths document
    (s.queries.zip s.slots).zipIdx.findSome? fun ((q, row), i) => hitOf? values i q row

def firing? (s : QuerySet) (h : Hit) : Option Firing := do
  let q ← s.queries[h.query]?
  let t ← q.tests[h.test]?
  return ⟨q, t, h⟩

theorem firing?_eq_some_iff {s : QuerySet} {h : Hit} {f : Firing} :
    s.firing? h = some f ↔
      s.queries[h.query]? = some f.query ∧ f.query.tests[h.test]? = some f.test ∧ f.hit = h := by
  constructor
  · intro hf
    simp only [firing?, Option.bind_eq_bind, Option.bind_eq_some_iff, Option.pure_def,
      Option.some.injEq] at hf
    obtain ⟨q, hq, t, ht, rfl⟩ := hf
    exact ⟨hq, ht, rfl⟩
  · rintro ⟨hq, ht, rfl⟩
    simp [firing?, hq, ht]

end QuerySet

end PatentFilter

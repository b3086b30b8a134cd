import PatentFilter.QuerySet.Evaluate

/-!
# Examiners

An examiner decides documents with one set of queries and remembers the result of the last
decision asked of it. Each decision leaves one log entry and one record of what it cost.
-/

namespace PatentFilter

structure Examiner where
  queries : QuerySet
  last : Option Hit
  deriving DecidableEq, Repr

/-- What is recorded of a decision: the number of queries, and the scheme of the one that fired. -/
structure Decision where
  queries : Nat
  scheme : Option Scheme
  deriving DecidableEq, Repr

namespace Examiner

def ofQueries (s : QuerySet) : Examiner := ⟨s, none⟩

/-- An examiner with the same queries and nothing remembered. -/
def fork (e : Examiner) : Examiner := ofQueries e.queries

def reset (e : Examiner) : Examiner := { e with last := none }

def lastFiring? (e : Examiner) : Option Firing :=
  e.last.bind e.queries.firing?

end Examiner

namespace QuerySet

/-- The result for a document, with the log entry and the record of the decision. -/
def decide (s : QuerySet) (document : String) : Option Hit × LogEntry × Decision :=
  let hit := s.evaluate document
  match hit.bind s.firing? with
  | some f =>
    (hit, .documentMatched f.query.code f.hit.location f.hit.value,
      ⟨s.queries.length, some f.query.scheme⟩)
  | none => (hit, .documentUnmatched s.queries.length, ⟨s.queries.length, none⟩)

@[simp] theorem fst_decide (s : QuerySet) (document : String) :
    (s.decide document).1 = s.evaluate document := by
  simp only [decide]
  split <;> rfl

end QuerySet

end PatentFilter

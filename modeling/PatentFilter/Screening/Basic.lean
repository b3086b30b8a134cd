import PatentFilter.Code.Written
import PatentFilter.Examiner

/-!
# Screenings

A screening holds the wanted codes, an examiner once they have been compiled, and the document
that is bound to it. Documents are bound one after the other; what the examiner remembers never
outlives the binding that it was decided for.
-/

namespace PatentFilter

structure Binding where
  document : String
  kind : DocumentKind
  deriving DecidableEq, Repr

structure Screening where
  wanted : List Code
  examiner : Option Examiner
  binding : Option Binding
  deriving DecidableEq, Repr

inductive Stage where
  | uninitialized
  | ready
  | bound
  deriving DecidableEq, Repr

def Stage.name : Stage → String
  | .uninitialized => "Uninitialized"
  | .ready => "Ready"
  | .bound => "Bound"

inductive ScreeningFault where
  | badCode (fault : CodeFault)
  | notSetUp
  | nothingBound
  deriving DecidableEq, Repr

namespace ScreeningFault

def message : ScreeningFault → String
  | badCode f => "failed to compile wanted classifications: " ++ f.message
  | notSetUp => "match requested before setup()"
  | nothingBound => "match requested before a document was bound"

/-- Whether the caller asked too early. -/
def isMisuse : ScreeningFault → Bool
  | badCode _ => false
  | notSetUp => true
  | nothingBound => true

def cause? : ScreeningFault → Option CodeFault
  | badCode f => some f
  | _ => none

end ScreeningFault

/-- Why a document matched, or that it did not. -/
inductive Explanation where
  | noMatch
  | matched (code : Code) (location : Location) (expression value : String)
  deriving DecidableEq, Repr

namespace Explanation

def ofFiring : Option Firing → Explanation
  | some f => matched f.query.code f.hit.location f.text f.hit.value
  | none => noMatch

def isMatch : Explanation → Bool
  | noMatch => false
  | matched .. => true

@[simp] theorem isMatch_ofFiring (f : Option Firing) : (ofFiring f).isMatch = f.isSome := by
  cases f <;> rfl

def text : Explanation → String
  | noMatch => "no match"
  | matched _ _ expression _ => expression

def toValue : Explanation → Value
  | noMatch => .map [(.text "outcome", .text "no_match")]
  | matched code location expression value =>
    .map [(.text "outcome", .text "matched"), (.text "code", code.toValue),
      (.text "location", .text (Variant.tag location)), (.text "expression", .text expression),
      (.text "value", .text value)]

end Explanation

namespace Screening

def ofWanted (wanted : List Code) : Screening := ⟨wanted, none, none⟩

def stage (s : Screening) : Stage :=
  match s.examiner, s.binding with
  | none, _ => .uninitialized
  | some _, none => .ready
  | some _, some _ => .bound

theorem stage_eq_uninitialized_iff {s : Screening} :
    s.stage = .uninitialized ↔ s.examiner = none := by
  unfold stage
  split <;> simp_all

theorem stage_eq_bound_iff {s : Screening} :
    s.stage = .bound ↔ s.examiner ≠ none ∧ s.binding ≠ none := by
  unfold stage
  split <;> simp_all

def queries? (s : Screening) : Option QuerySet :=
  s.examiner.map Examiner.queries

def lastFiring? (s : Screening) : Option Firing :=
  s.examiner.bind Examiner.lastFiring?

def explain (s : Screening) : Explanation :=
  .ofFiring s.lastFiring?

def text (s : Screening) : String :=
  "ClassificationMatch [wanted=" ++ toString s.wanted.length ++
    (match s.queries? with
      | some qs => ", queries=" ++ toString qs.queries.length
      | none => ", not set up") ++ "]"

/-- A screening for another stream of documents: the same queries, nothing bound. -/
def fork (s : Screening) : Screening :=
  ⟨s.wanted, s.examiner.map Examiner.fork, none⟩

/-- Compiles the wanted codes, again if need be. -/
def setUp (s : Screening) : Screening × Except ScreeningFault Unit × Log :=
  match QuerySet.compile s.wanted with
  | (.ok qs, log) =>
    ({ s with examiner := some (.ofQueries qs) }, .ok (),
      log ++ [.setUp s.wanted.length qs.queries.length])
  | (.error f, log) => ({ s with examiner := none }, .error (.badCode f), log ++ [.setupFailed f])

/-- Attaches the next document. What was decided for the one before is forgotten. -/
def bind (document : String) (kind : DocumentKind) (s : Screening) : Screening × Log :=
  ({ s with examiner := s.examiner.map Examiner.reset, binding := some ⟨document, kind⟩ },
    [.documentBound kind document.utf8ByteSize])

/-- Decides the bound document and remembers the result. -/
def decideBound (s : Screening) : Screening × Except ScreeningFault Bool × Log × List Decision :=
  match s.examiner, s.binding with
  | none, _ => (s, .error .notSetUp, [], [])
  | some _, none => (s, .error .nothingBound, [], [])
  | some e, some b =>
    let (hit, entry, decision) := e.queries.decide b.document
    ({ s with examiner := some { e with last := hit } }, .ok hit.isSome,
      [.boundDecision b.kind, entry], [decision])

/-- Decides a document that is not bound; nothing is remembered. -/
def decideFree (document : String) (kind : DocumentKind) (s : Screening) :
    Except ScreeningFault (Option Hit) × Log × List Decision :=
  match s.examiner with
  | none => (.error .notSetUp, [], [])
  | some e =>
    let (hit, entry, decision) := e.queries.decide document
    (.ok hit, [.freeDecision kind, entry], [decision])

end Screening

end PatentFilter

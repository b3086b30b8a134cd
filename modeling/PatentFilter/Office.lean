import PatentFilter.Screening.Basic

/-!
# Offices

Examiners and screenings side by side, each addressed by its slot, with one recorder of decisions
for all of them. New slots come from forks, which share the queries and remember nothing, and from
clones, which remember everything.
-/

namespace PatentFilter

structure Office where
  examiners : List Examiner
  screenings : List Screening
  recording : Bool
  deriving DecidableEq, Repr

inductive ExaminerCommand where
  | decide (document : String)
  | decideFree (document : String)
  | reset
  | look
  | fork
  | clone
  deriving DecidableEq, Repr

inductive ScreeningCommand where
  | setUp
  | bind (document : String) (kind : DocumentKind)
  | decideBound
  | decideFree (document : String) (kind : DocumentKind)
  | explain
  | lastFiring
  | queries
  | wanted
  | fork
  | clone
  deriving DecidableEq, Repr

inductive Command where
  | examiner (slot : Nat) (command : ExaminerCommand)
  | screening (slot : Nat) (command : ScreeningCommand)
  | startRecording
  | stopRecording
  deriving DecidableEq, Repr

inductive Answer where
  | done
  | setUp
  | verdict (isMatch : Bool)
  | result (hit : Option Hit) (firing : Option Firing)
  | explanation (e : Explanation)
  | firing (f : Option Firing)
  | queries (texts : Option (List String))
  | wanted (codes : List Code)
  /-- A new slot; whether its queries are those of its source, if that has any. -/
  | slot (n : Nat) (shared : Option Bool)
  | fault (f : ScreeningFault)
  | noSlot
  deriving DecidableEq, Repr

/-- An answer with what was logged on the way and which decisions were taken. -/
structure Reply where
  answer : Answer
  log : Log := []
  decisions : List Decision := []
  deriving DecidableEq, Repr

def Answer.ofResult (s : QuerySet) (hit : Option Hit) : Answer :=
  .result hit (hit.bind s.firing?)

namespace Office

def empty : Office := ⟨[], [], false⟩

def examinerStep (o : Office) (slot : Nat) (e : Examiner) : ExaminerCommand → Office × Reply
  | .decide document =>
    let (hit, entry, decision) := e.queries.decide document
    ({ o with examiners := o.examiners.set slot { e with last := hit } },
      { answer := .verdict hit.isSome, log := [entry], decisions := [decision] })
  | .decideFree document =>
    let (hit, entry, decision) := e.queries.decide document
    (o, { answer := .ofResult e.queries hit, log := [entry], decisions := [decision] })
  | .reset => ({ o with examiners := o.examiners.set slot e.reset }, { answer := .done })
  | .look => (o, { answer := .done })
  | .fork =>
    ({ o with examiners := o.examiners ++ [e.fork] },
      { answer := .slot o.examiners.length (some true) })
  | .clone =>
    ({ o with examiners := o.examiners ++ [e] },
      { answer := .slot o.examiners.length (some true) })

def screeningStep (o : Office) (slot : Nat) (s : Screening) : ScreeningCommand → Office × Reply
  | .setUp =>
    let (s', outcome, log) := s.setUp
    let answer := match outcome with
      | .ok () => .setUp
      | .error f => .fault f
    ({ o with screenings := o.screenings.set slot s' }, { answer, log })
  | .bind document kind =>
    let (s', log) := s.bind document kind
    ({ o with screenings := o.screenings.set slot s' }, { answer := .done, log })
  | .decideBound =>
    let (s', outcome, log, decisions) := s.decideBound
    let answer := match outcome with
      | .ok b => .verdict b
      | .error f => .fault f
    ({ o with screenings := o.screenings.set slot s' }, { answer, log, decisions })
  | .decideFree document kind =>
    let (outcome, log, decisions) := s.decideFree document kind
    let answer := match outcome with
      | .ok hit => .result hit (hit.bind fun h => s.queries?.bind (·.firing? h))
      | .error f => .fault f
    (o, { answer, log, decisions })
  | .explain => (o, { answer := .explanation s.explain })
  | .lastFiring => (o, { answer := .firing s.lastFiring? })
  | .queries => (o, { answer := .queries (s.queries?.map fun qs => qs.queries.map Query.text) })
  | .wanted => (o, { answer := .wanted s.wanted })
  | .fork =>
    ({ o with screenings := o.screenings ++ [s.fork] },
      { answer := .slot o.screenings.length (s.queries?.map fun _ => true) })
  | .clone =>
    ({ o with screenings := o.screenings ++ [s] },
      { answer := .slot o.screenings.length (s.queries?.map fun _ => true) })

/-- One command. The decisions taken are reported only while they are recorded. -/
def step (o : Office) (c : Command) : Office × Reply :=
  match c with
  | .examiner slot c =>
    match o.examiners[slot]? with
    | none => (o, { answer := .noSlot })
    | some e => observed o (examinerStep o slot e c)
  | .screening slot c =>
    match o.screenings[slot]? with
    | none => (o, { answer := .noSlot })
    | some s => observed o (screeningStep o slot s c)
  | .startRecording => ({ o with recording := true }, { answer := .done })
  | .stopRecording => ({ o with recording := false }, { answer := .done })
where
  observed (o : Office) (r : Office × Reply) : Office × Reply :=
    (r.1, if o.recording then r.2 else { r.2 with decisions := [] })

def run (o : Office) : List Command → Office × List Reply
  | [] => (o, [])
  | c :: cs =>
    let (o, r) := o.step c
    let (o, rs) := run o cs
    (o, r :: rs)

end Office

end PatentFilter

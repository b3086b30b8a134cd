import PatentFilter.Office
import PatentFilter.Proofs.Screening.Stages

/-!
# Steps of an office

A command to a slot that is not there changes nothing. Any other step is that of the examiner or of
the screening in the slot, only that decisions are left out of the reply while none are recorded.
-/

namespace PatentFilter.Office

theorem run_cons (o : Office) (c : Command) (cs : List Command) :
    o.run (c :: cs) = (((o.step c).1.run cs).1, (o.step c).2 :: ((o.step c).1.run cs).2) := rfl

theorem fst_run_append (o : Office) (cs ds : List Command) :
    (o.run (cs ++ ds)).1 = ((o.run cs).1.run ds).1 := by
  induction cs generalizing o with
  | nil => rfl
  | cons c cs ih => rw [List.cons_append, run_cons, run_cons, ih]

@[simp] theorem answer_observed (o : Office) (r : Office × Reply) :
    (step.observed o r).2.answer = r.2.answer := by
  unfold step.observed
  split <;> rfl

@[simp] theorem log_observed (o : Office) (r : Office × Reply) :
    (step.observed o r).2.log = r.2.log := by
  unfold step.observed
  split <;> rfl

@[simp] theorem decisions_observed (o : Office) (r : Office × Reply) :
    (step.observed o r).2.decisions = if o.recording then r.2.decisions else [] := by
  unfold step.observed
  split <;> rfl

section

variable {o : Office} {slot : Nat}

theorem step_examiner_of_none (h : o.examiners[slot]? = none) (c : ExaminerCommand) :
    o.step (.examiner slot c) = (o, { answer := .noSlot }) := by
  simp [step, h]

theorem step_examiner_of_some {e : Examiner} (h : o.examiners[slot]? = some e)
    (c : ExaminerCommand) :
    o.step (.examiner slot c) = step.observed o (o.examinerStep slot e c) := by
  simp [step, h]

theorem step_screening_eq_noSlot (h : o.screenings[slot]? = none) (c : ScreeningCommand) :
    o.step (.screening slot c) = (o, { answer := .noSlot }) := by
  simp [step, h]

theorem step_screening_eq_observed {s : Screening} (h : o.screenings[slot]? = some s)
    (c : ScreeningCommand) :
    o.step (.screening slot c) = step.observed o (o.screeningStep slot s c) := by
  simp [step, h]

theorem step_screening_of_none (h : o.screenings[slot]? = none) (c : ScreeningCommand) :
    (o.step (.screening slot c)).1 = o ∧ (o.step (.screening slot c)).2.answer = .noSlot := by
  rw [step_screening_eq_noSlot h]
  exact ⟨rfl, rfl⟩

theorem step_screening_of_some {s : Screening} (h : o.screenings[slot]? = some s)
    (c : ScreeningCommand) :
    (o.step (.screening slot c)).1 = (o.screeningStep slot s c).1 ∧
      (o.step (.screening slot c)).2.answer = (o.screeningStep slot s c).2.answer := by
  rw [step_screening_eq_observed h, answer_observed]
  exact ⟨rfl, rfl⟩

theorem screenings_examinerStep (o : Office) (slot : Nat) (e : Examiner) (c : ExaminerCommand) :
    (o.examinerStep slot e c).1.screenings = o.screenings := by
  cases c <;> rfl

theorem screenings_step_examiner (o : Office) (slot : Nat) (c : ExaminerCommand) :
    (o.step (.examiner slot c)).1.screenings = o.screenings := by
  cases hSlot : o.examiners[slot]? with
  | none => rw [step_examiner_of_none hSlot]
  | some e =>
    rw [step_examiner_of_some hSlot]
    exact screenings_examinerStep o slot e c

theorem screening_step_self {s : Screening} (h : o.screenings[slot]? = some s) :
    (o.step (.screening slot .setUp)).1.screenings[slot]? = some s.setUp.1 ∧
      (∀ document kind, (o.step (.screening slot (.bind document kind))).1.screenings[slot]? =
        some (s.bind document kind).1) ∧
      (o.step (.screening slot .decideBound)).1.screenings[slot]? = some s.decideBound.1 := by
  have hLt := (List.getElem?_eq_some_iff.mp h).1
  refine ⟨?_, fun document kind => ?_, ?_⟩
  · rw [(step_screening_of_some h .setUp).1]
    exact List.getElem?_set_self hLt
  · rw [(step_screening_of_some h (.bind document kind)).1]
    exact List.getElem?_set_self hLt
  · rw [(step_screening_of_some h .decideBound).1]
    exact List.getElem?_set_self hLt

theorem screening_step_new {s : Screening} (h : o.screenings[slot]? = some s) :
    (o.step (.screening slot .clone)).1.screenings[o.screenings.length]? = some s ∧
      (o.step (.screening slot .fork)).1.screenings[o.screenings.length]? = some s.fork := by
  rw [(step_screening_of_some h .clone).1, (step_screening_of_some h .fork).1]
  exact ⟨List.getElem?_concat_length, List.getElem?_concat_length⟩

theorem answer_step_decideBound {s : Screening} (hs : o.screenings[slot]? = some s) :
    (o.step (.screening slot .decideBound)).2.answer =
      match s.decideBound.2.1 with
      | .ok isMatch => .verdict isMatch
      | .error f => .fault f :=
  (step_screening_of_some hs .decideBound).2

theorem answer_step_decideFree {s : Screening} (hs : o.screenings[slot]? = some s)
    (document : String) (kind : DocumentKind) :
    (o.step (.screening slot (.decideFree document kind))).2.answer =
      match (s.decideFree document kind).1 with
      | .ok hit => .result hit (hit.bind fun h => s.queries?.bind (·.firing? h))
      | .error f => .fault f :=
  (step_screening_of_some hs (.decideFree document kind)).2

end

end PatentFilter.Office

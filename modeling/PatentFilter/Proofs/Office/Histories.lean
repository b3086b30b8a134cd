import PatentFilter.Proofs.Office.Steps
import PatentFilter.Proofs.Screening.History

/-!
# Every slot has a history of its own

The commands of a run and their answers tell a history for every slot. What stands in a slot is the
replay of its own history, whatever happens in the other slots and to the examiners.
-/

namespace PatentFilter.Office

/-- An office with one screening, in slot 0. -/
def opening (wanted : List Code) : Office :=
  { empty with screenings := [.ofWanted wanted] }

def trace (o : Office) (cs : List Command) : List (Command × Answer) :=
  cs.zip ((o.run cs).2.map Reply.answer)

/-- What a command and its answer add to the histories. Calls that fail on a bound document add
nothing; a clone has the history of its source, and a fork has it too but remembers nothing. -/
def record (hs : List History) : Command × Answer → List History
  | (.screening i .setUp, .setUp) => hs.modify i (· ++ [.setUp true])
  | (.screening i .setUp, .fault _) => hs.modify i (· ++ [.setUp false])
  | (.screening i (.bind document kind), .done) => hs.modify i (· ++ [.bound document kind])
  | (.screening i .decideBound, .verdict isMatch) => hs.modify i (· ++ [.decided isMatch])
  | (.screening i .fork, .slot _ _) => hs ++ (hs[i]?.map (· ++ [.forked])).toList
  | (.screening i .clone, .slot _ _) => hs ++ hs[i]?.toList
  | _ => hs

/-- The histories of all slots, that of slot 0 being empty at first. -/
def histories (ts : List (Command × Answer)) : List History :=
  ts.foldl record [[]]

theorem trace_cons (o : Office) (c : Command) (cs : List Command) :
    o.trace (c :: cs) = (c, (o.step c).2.answer) :: (o.step c).1.trace cs := rfl

theorem trace_append (o : Office) (cs ds : List Command) :
    o.trace (cs ++ ds) = o.trace cs ++ (o.run cs).1.trace ds := by
  induction cs generalizing o with
  | nil => rfl
  | cons c cs ih => rw [List.cons_append, trace_cons, trace_cons, ih, run_cons, List.cons_append]

theorem histories_concat (o : Office) (cs : List Command) (c : Command) :
    histories (o.trace (cs ++ [c])) =
      record (histories (o.trace cs)) (c, ((o.run cs).1.step c).2.answer) := by
  rw [trace_append, histories, List.foldl_append]
  rfl

theorem set_map_replay {wanted : List Code} {hs : List History} {slot : Nat} {own : History}
    (hOwn : hs[slot]? = some own) (e : Event) :
    (hs.map (Screening.replay wanted)).set slot ((Screening.replay wanted own).after e) =
      (hs.modify slot (· ++ [e])).map (Screening.replay wanted) := by
  rw [← Screening.replay_concat, ← List.map_set, List.modify_eq_set, hOwn, Option.getD_some]

theorem set_map_replay_self {wanted : List Code} {hs : List History} {slot : Nat} {own : History}
    (hOwn : hs[slot]? = some own) :
    (hs.map (Screening.replay wanted)).set slot (Screening.replay wanted own) =
      hs.map (Screening.replay wanted) := by
  obtain ⟨hLt, rfl⟩ := List.getElem?_eq_some_iff.mp hOwn
  rw [← List.map_set, List.set_getElem_self]

theorem record_noSlot (hs : List History) (slot : Nat) (c : ScreeningCommand) :
    record hs (.screening slot c, .noSlot) = hs := by
  cases c <;> rfl

theorem screenings_screeningStep {wanted : List Code} {o : Office} {hs : List History}
    (h : o.screenings = hs.map (Screening.replay wanted)) {slot : Nat} {own : History}
    (hOwn : hs[slot]? = some own) (c : ScreeningCommand) :
    (o.screeningStep slot (Screening.replay wanted own) c).1.screenings =
      (record hs (.screening slot c,
        (o.screeningStep slot (Screening.replay wanted own) c).2.answer)).map
          (Screening.replay wanted) := by
  cases c with
  | setUp =>
    rcases (Screening.replay wanted own).setUp_cases with ⟨qs, _, hOutcome, _⟩ | ⟨f, _, hOutcome, _⟩
    · simp only [screeningStep, hOutcome, record, h]
      exact set_map_replay hOwn (.setUp true)
    · simp only [screeningStep, hOutcome, record, h]
      exact set_map_replay hOwn (.setUp false)
  | bind document kind =>
    simp only [screeningStep, record, h]
    exact set_map_replay hOwn (.bound document kind)
  | decideBound =>
    rcases (Screening.replay wanted own).decideBound_cases with
      ⟨f, hOutcome, hState⟩ | ⟨e, b, _, _, hOutcome, _⟩
    · simp only [screeningStep, hOutcome, record, hState, h]
      exact set_map_replay_self hOwn
    · simp only [screeningStep, hOutcome, record, h]
      exact set_map_replay hOwn (.decided _)
  | decideFree document kind => exact h
  | explain => exact h
  | lastFiring => exact h
  | queries => exact h
  | wanted => exact h
  | fork => simp [screeningStep, record, h, hOwn, Screening.replay_concat, Screening.after]
  | clone => simp [screeningStep, record, h, hOwn]

theorem screenings_step {wanted : List Code} {o : Office} {hs : List History}
    (h : o.screenings = hs.map (Screening.replay wanted)) (c : Command) :
    (o.step c).1.screenings =
      (record hs (c, (o.step c).2.answer)).map (Screening.replay wanted) := by
  cases c with
  | examiner slot c => exact (screenings_step_examiner o slot c).trans h
  | screening slot c =>
    cases hSlot : o.screenings[slot]? with
    | none =>
      obtain ⟨hState, hAnswer⟩ := step_screening_of_none hSlot c
      rw [hState, hAnswer, record_noSlot, h]
    | some s =>
      obtain ⟨hState, hAnswer⟩ := step_screening_of_some hSlot c
      rw [h, List.getElem?_map] at hSlot
      obtain ⟨own, hOwn, rfl⟩ := Option.map_eq_some_iff.mp hSlot
      rw [hState, hAnswer]
      exact screenings_screeningStep h hOwn c
  | startRecording => exact h
  | stopRecording => exact h

theorem screenings_run_eq_map_replay {wanted : List Code} {o : Office} {hs : List History}
    (h : o.screenings = hs.map (Screening.replay wanted)) (cs : List Command) :
    (o.run cs).1.screenings =
      ((o.trace cs).foldl record hs).map (Screening.replay wanted) := by
  induction cs generalizing o hs with
  | nil => exact h
  | cons c cs ih =>
    rw [run_cons, trace_cons, List.foldl_cons]
    exact ih (screenings_step h c)

/-- After any run, each slot holds the replay of its own history. -/
theorem screenings_run_opening (wanted : List Code) (cs : List Command) :
    ((opening wanted).run cs).1.screenings =
      (histories ((opening wanted).trace cs)).map (Screening.replay wanted) :=
  screenings_run_eq_map_replay rfl cs

theorem getElem?_screenings_run_iff {wanted : List Code} {cs : List Command} {slot : Nat}
    {s : Screening} :
    ((opening wanted).run cs).1.screenings[slot]? = some s ↔
      ∃ own, (histories ((opening wanted).trace cs))[slot]? = some own ∧
        Screening.replay wanted own = s := by
  rw [screenings_run_opening, List.getElem?_map, Option.map_eq_some_iff]

theorem sound_of_run {wanted : List Code} {cs : List Command} {slot : Nat} {s : Screening}
    (hs : ((opening wanted).run cs).1.screenings[slot]? = some s) : s.Sound := by
  obtain ⟨own, _, rfl⟩ := getElem?_screenings_run_iff.mp hs
  exact Screening.sound_replay wanted own

end PatentFilter.Office

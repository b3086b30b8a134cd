import PatentFilter.Proofs.Office.Histories

/-!
# Slots are isolated

A verdict speaks of the document last bound in its slot and of nothing else, and an explanation
stands until its own slot is set up, bound or asked again. Other slots, examiners, forks and clones
leave it alone.
-/

namespace PatentFilter

/-- Whether a command sets up, binds or decides the screening in a slot. -/
def Command.changes (slot : Nat) : Command → Bool
  | .screening i .setUp => i == slot
  | .screening i (.bind _ _) => i == slot
  | .screening i .decideBound => i == slot
  | _ => false

namespace Office

def explanationAt (o : Office) (slot : Nat) : Option Explanation :=
  o.screenings[slot]?.map Screening.explain

theorem answer_step_explain_iff (o : Office) (slot : Nat) (e : Explanation) :
    (o.step (.screening slot .explain)).2.answer = .explanation e ↔
      o.explanationAt slot = some e := by
  rw [explanationAt]
  cases hSlot : o.screenings[slot]? with
  | none => simp [step_screening_of_none hSlot]
  | some s => simp [step_screening_of_some hSlot, screeningStep]

/-- What a command does to the screenings: nothing, an event in one slot, or a clone or a fork in a
new slot. -/
theorem screenings_step_cases (o : Office) (c : Command) :
    (o.step c).1.screenings = o.screenings ∨
      (∃ slot, ∃ s, ∃ e, s ∈ o.screenings ∧ c.changes slot = true ∧
        (o.step c).1.screenings = o.screenings.set slot (s.after e)) ∨
      ∃ s ∈ o.screenings, ∃ new, (new = s ∨ new = s.fork) ∧
        (o.step c).1.screenings = o.screenings ++ [new] := by
  cases c with
  | examiner slot c => exact .inl (screenings_step_examiner o slot c)
  | startRecording => exact .inl rfl
  | stopRecording => exact .inl rfl
  | screening slot c =>
    cases hSlot : o.screenings[slot]? with
    | none => exact .inl (by rw [(step_screening_of_none hSlot c).1])
    | some s =>
      have hs : s ∈ o.screenings := List.mem_of_getElem? hSlot
      have hSelf : (slot == slot) = true := beq_self_eq_true slot
      rw [(step_screening_of_some hSlot c).1]
      cases c with
      | setUp => exact .inr (.inl ⟨slot, s, .setUp true, hs, hSelf, rfl⟩)
      | bind document kind => exact .inr (.inl ⟨slot, s, .bound document kind, hs, hSelf, rfl⟩)
      | decideBound => exact .inr (.inl ⟨slot, s, .decided true, hs, hSelf, rfl⟩)
      | fork => exact .inr (.inr ⟨s, hs, s.fork, .inr rfl, rfl⟩)
      | clone => exact .inr (.inr ⟨s, hs, s, .inl rfl, rfl⟩)
      | decideFree document kind => exact .inl rfl
      | explain => exact .inl rfl
      | lastFiring => exact .inl rfl
      | queries => exact .inl rfl
      | wanted => exact .inl rfl

theorem screening_step_of_not_changes {o : Office} {c : Command} {slot : Nat} {s : Screening}
    (hChanges : c.changes slot = false) (hs : o.screenings[slot]? = some s) :
    (o.step c).1.screenings[slot]? = some s := by
  rcases o.screenings_step_cases c with h | ⟨i, _, _, _, hi, h⟩ | ⟨_, _, _, _, h⟩
  · rw [h, hs]
  · have hne : i ≠ slot := by
      rintro rfl
      rw [hi] at hChanges
      cases hChanges
    rw [h, List.getElem?_set_ne hne, hs]
  · rw [h, List.getElem?_append_left (List.getElem?_eq_some_iff.mp hs).1, hs]

theorem screening_run_of_not_changes {o : Office} {cs : List Command} {slot : Nat} {s : Screening}
    (hChanges : ∀ c ∈ cs, c.changes slot = false) (hs : o.screenings[slot]? = some s) :
    (o.run cs).1.screenings[slot]? = some s := by
  induction cs generalizing o with
  | nil => exact hs
  | cons c cs ih =>
    rw [run_cons]
    exact ih (fun c' hc' => hChanges c' (List.mem_cons_of_mem c hc'))
      (screening_step_of_not_changes (hChanges c List.mem_cons_self) hs)

theorem exists_screening_of_verdict {o : Office} {slot : Nat} {isMatch : Bool}
    (h : (o.step (.screening slot .decideBound)).2.answer = .verdict isMatch) :
    ∃ s, o.screenings[slot]? = some s ∧ s.decideBound.2.1 = .ok isMatch ∧
      (o.step (.screening slot .decideBound)).1.screenings[slot]? = some s.decideBound.1 := by
  cases hSlot : o.screenings[slot]? with
  | none =>
    rw [(step_screening_of_none hSlot .decideBound).2] at h
    cases h
  | some s =>
    refine ⟨s, rfl, ?_, (screening_step_self hSlot).2.2⟩
    rw [answer_step_decideBound hSlot] at h
    cases hOutcome : s.decideBound.2.1 with
    | error f => simp [hOutcome] at h
    | ok b => simpa [hOutcome] using h

theorem getElem?_histories_new {wanted : List Code} {cs : List Command} {slot : Nat} {own : History}
    (hOwn : (histories ((opening wanted).trace cs))[slot]? = some own) :
    let new := ((opening wanted).run cs).1.screenings.length
    (histories ((opening wanted).trace (cs ++ [.screening slot .clone])))[new]? = some own ∧
      (histories ((opening wanted).trace (cs ++ [.screening slot .fork])))[new]? =
        some (own ++ [.forked]) := by
  intro new
  have hNew : new = (histories ((opening wanted).trace cs)).length := by
    rw [← List.length_map, ← screenings_run_opening]
  have hSlot := getElem?_screenings_run_iff.mpr ⟨own, hOwn, rfl⟩
  refine ⟨?_, ?_⟩
  · rw [histories_concat, (step_screening_of_some hSlot .clone).2, screeningStep, hNew]
    simp [record, hOwn]
  · rw [histories_concat, (step_screening_of_some hSlot .fork).2, screeningStep, hNew]
    simp [record, hOwn]

theorem explanationAt_new (o : Office) {slot : Nat} {s : Screening}
    (hSlot : o.screenings[slot]? = some s) :
    (o.step (.screening slot .clone)).1.explanationAt o.screenings.length = some s.explain ∧
      (o.step (.screening slot .fork)).1.explanationAt o.screenings.length = some .noMatch := by
  obtain ⟨hClone, hFork⟩ := screening_step_new hSlot
  rw [explanationAt, explanationAt, hClone, hFork, Option.map_some, Option.map_some,
    (Screening.quiet_fork s).explain]
  exact ⟨rfl, rfl⟩

/-- What a slot says after any run. A verdict is that of the wanted codes on the document last bound
in this slot, and the slot explains it. The explanation stands through whatever does not change the
slot. From a binding to the next verdict nothing is explained. A clone explains what its source
does and has its history; a fork explains nothing and has nothing bound. -/
theorem slots_isolated (wanted : List Code) (cs : List Command) (slot : Nat) :
    let o := ((opening wanted).run cs).1
    let history := (histories ((opening wanted).trace cs))[slot]?
    (∀ isMatch, (o.step (.screening slot .decideBound)).2.answer = .verdict isMatch →
      (∃ own document qs, history = some own ∧ own.boundDocument = some document ∧
        (QuerySet.compile wanted).1 = .ok qs ∧ isMatch = (qs.evaluate document).isSome) ∧
      ∃ e, (o.step (.screening slot .decideBound)).1.explanationAt slot = some e ∧
        e.isMatch = isMatch) ∧
    (∀ later, (∀ c ∈ later, c.changes slot = false) → ∀ e, o.explanationAt slot = some e →
      (o.run later).1.explanationAt slot = some e) ∧
    (∀ earlier document kind later, history = some (earlier ++ .bound document kind :: later) →
      (∀ isMatch, .decided isMatch ∉ later) → o.explanationAt slot = some .noMatch) ∧
    ∀ own, history = some own →
      (o.step (.screening slot .clone)).1.explanationAt o.screenings.length =
        o.explanationAt slot ∧
      (histories ((opening wanted).trace (cs ++ [.screening slot .clone])))[o.screenings.length]? =
        some own ∧
      (o.step (.screening slot .fork)).1.explanationAt o.screenings.length = some .noMatch ∧
      (histories ((opening wanted).trace (cs ++ [.screening slot .fork])))[o.screenings.length]? =
        some (own ++ [.forked]) ∧
      (own ++ [Event.forked] : History).boundDocument = none := by
  intro o history
  refine ⟨fun isMatch hVerdict => ?_, fun later hLater e he => ?_, ?_, fun own hOwn => ?_⟩
  · obtain ⟨s, hSlot, hOk, hAfter⟩ := exists_screening_of_verdict hVerdict
    obtain ⟨own, hOwn, rfl⟩ := getElem?_screenings_run_iff.mp hSlot
    obtain ⟨⟨document, qs, hBound, hQueries, hIsMatch⟩, hExplained⟩ :=
      (Screening.sound_replay wanted own).verdict hOk
    rw [Screening.document_binding_replay] at hBound
    rw [Screening.wanted_replay] at hQueries
    refine ⟨⟨own, document, qs, hOwn, hBound, hQueries, hIsMatch⟩, _, ?_, hExplained⟩
    rw [explanationAt, hAfter, Option.map_some]
  · obtain ⟨s, hSlot, rfl⟩ := Option.map_eq_some_iff.mp he
    rw [explanationAt, screening_run_of_not_changes hLater hSlot, Option.map_some]
  · intro earlier document kind later hOwn hUndecided
    rw [explanationAt, getElem?_screenings_run_iff.mpr ⟨_, hOwn, rfl⟩, Option.map_some,
      (Screening.quiet_replay_of_bound wanted earlier later document kind hUndecided).explain]
  · have hSlot := getElem?_screenings_run_iff.mpr ⟨own, hOwn, rfl⟩
    obtain ⟨hClone, hFork⟩ := explanationAt_new o hSlot
    obtain ⟨hCloned, hForked⟩ := getElem?_histories_new hOwn
    refine ⟨?_, hCloned, hFork, hForked, ?_⟩
    · rw [hClone, explanationAt, hSlot, Option.map_some]
    · rw [History.boundDocument, List.foldl_append]
      rfl

/-- A clone goes on explaining what its source no longer does. -/
example :
    let document := "<PATDOC><SDOBI><B500><B520><B521><PDAT>7051"
    let o := ((opening [.uspc "705"]).run [.screening 0 .setUp, .screening 0 (.bind document .grant),
      .screening 0 .decideBound, .screening 0 .clone, .screening 0 (.bind "" .grant)]).1
    o.explanationAt 0 = some .noMatch ∧
      o.explanationAt 1 = some (.matched (.uspc "705") .primary
        "/PATDOC/SDOBI/B500/B520/B521[starts-with(PDAT, '705')]" "7051") := by
  decide +kernel

end Office

end PatentFilter

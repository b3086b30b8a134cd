import PatentFilter.Proofs.Office.Isolation

/-!
# Setting up again

A slot that is set up once more asks the same queries of the same bound document, but it has
forgotten the last result. So the explanation of a match is lost although the document is still
bound, and nothing else is: commands that do not ask for the last result are answered alike, and a
slot that is bound, decided or set up after that is as if it had been set up only once.
-/

namespace PatentFilter

namespace Screening

/-- Two screenings that differ at most in what they remember of a decision on the bound
document. -/
structure Alike (s t : Screening) : Prop where
  wanted : s.wanted = t.wanted
  queries : s.queries? = t.queries?
  binding : s.binding = t.binding
  unbound : s.binding = none → s = t

theorem Alike.refl (s : Screening) : s.Alike s := ⟨rfl, rfl, rfl, fun _ => rfl⟩

theorem setUp_congr {s t : Screening} (hWanted : s.wanted = t.wanted)
    (hBinding : s.binding = t.binding) : s.setUp = t.setUp := by
  rw [setUp, setUp, hWanted, hBinding]

theorem fork_congr {s t : Screening} (hWanted : s.wanted = t.wanted)
    (hQueries : s.queries? = t.queries?) : s.fork = t.fork := by
  have hFork (u : Screening) :
      u.examiner.map Examiner.fork = u.queries?.map Examiner.ofQueries := by
    rw [queries?, Option.map_map]
    rfl
  rw [fork, fork, hFork, hFork, hWanted, hQueries]

/-- Both are without an examiner, and then they are equal, or their examiners have the same
queries. -/
theorem Alike.cases {s t : Screening} (h : s.Alike t) :
    (s = t ∧ s.examiner = none) ∨
      ∃ e e', s.examiner = some e ∧ t.examiner = some e' ∧ e.queries = e'.queries := by
  obtain ⟨wanted, examiner, binding⟩ := s
  obtain ⟨wanted', examiner', binding'⟩ := t
  obtain ⟨rfl, hQueries, rfl, _⟩ := h
  cases examiner with
  | none =>
    obtain rfl := Option.map_eq_none_iff.mp (Eq.symm hQueries)
    exact .inl ⟨rfl, rfl⟩
  | some e =>
    obtain ⟨e', rfl, hSame⟩ := Option.map_eq_some_iff.mp (Eq.symm hQueries)
    exact .inr ⟨e, e', rfl, rfl, hSame.symm⟩

theorem Alike.stage_eq {s t : Screening} (h : s.Alike t) : s.stage = t.stage := by
  rcases h.cases with ⟨rfl, _⟩ | ⟨e, e', he, he', _⟩
  · rfl
  · rw [stage, stage, he, he', h.binding]
    cases t.binding <;> rfl

theorem Alike.decideBound_eq {s t : Screening} (h : s.Alike t) : s.decideBound = t.decideBound := by
  rcases h.cases with ⟨rfl, _⟩ | ⟨e, e', he, he', hSame⟩
  · rfl
  · cases hBinding : s.binding with
    | none => rw [h.unbound hBinding]
    | some b => simp [decideBound, he, he', hBinding, h.binding ▸ hBinding, hSame, h.wanted]

theorem Alike.decideFree_eq {s t : Screening} (h : s.Alike t) (document : String)
    (kind : DocumentKind) : s.decideFree document kind = t.decideFree document kind := by
  rcases h.cases with ⟨rfl, _⟩ | ⟨e, e', he, he', hSame⟩
  · rfl
  · simp only [decideFree, he, he', hSame]

/-- Whatever happens next, the difference is gone. -/
theorem Alike.after_eq {s t : Screening} (h : s.Alike t) (e : Event) : s.after e = t.after e := by
  cases e with
  | setUp succeeded => rw [after, after, setUp_congr h.wanted h.binding]
  | bound document kind => exact bind_congr h.wanted h.queries document kind
  | decided isMatch => rw [after, after, h.decideBound_eq]
  | forked => exact fork_congr h.wanted h.queries

theorem Sound.setUp_again {s : Screening} (hs : s.Sound) (hStage : s.stage ≠ .uninitialized) :
    s.setUp.1 = { s with examiner := s.examiner.map Examiner.reset } := by
  rw [Ne, stage_eq_uninitialized_iff] at hStage
  obtain ⟨e, he⟩ := Option.ne_none_iff_exists'.mp hStage
  have hCompile := hs.queries e he
  rcases s.setUp_cases with ⟨qs, hQueries, _, hState⟩ | ⟨f, hFault, _, _⟩
  · obtain rfl := Except.ok.inj (hCompile.symm.trans hQueries)
    rw [hState, he]
    rfl
  · rw [hCompile] at hFault
    cases hFault

theorem Sound.quiet_of_explain {s : Screening} (hs : s.Sound)
    (hExplain : s.explain = .noMatch) : s.Quiet := by
  intro e he
  have hFiring : e.lastFiring?.isSome = false := by
    rw [explain, lastFiring?, he, Option.bind_some] at hExplain
    rw [← Explanation.isMatch_ofFiring, hExplain]
    rfl
  rw [hs.isSome_lastFiring? he] at hFiring
  exact Option.isNone_iff_eq_none.mp (Option.isSome_eq_false_iff.mp hFiring)

theorem Quiet.map_reset {s : Screening} (hs : s.Quiet) :
    s.examiner.map Examiner.reset = s.examiner := by
  cases he : s.examiner with
  | none => rfl
  | some e =>
    rw [Option.map_some, Examiner.reset, ← hs e he]

theorem Sound.alike_setUp_again {s : Screening} (hs : s.Sound) (hStage : s.stage ≠ .uninitialized) :
    s.setUp.1.Alike s := by
  rw [hs.setUp_again hStage]
  refine ⟨rfl, ?_, rfl, fun hBinding => ?_⟩
  · rw [queries?, queries?, Option.map_map]
    rfl
  · have hQuiet : s.Quiet := by
      intro e he
      rcases hs.last e he with hNone | ⟨b, hb, _⟩
      · exact hNone
      · rw [hBinding] at hb
        cases hb
    rw [hQuiet.map_reset]

end Screening

/-- Whether a command asks a screening for the last result. -/
def Command.asksLast : Command → Bool
  | .screening _ .explain => true
  | .screening _ .lastFiring => true
  | _ => false

namespace Office

structure Alike (o o' : Office) : Prop where
  examiners : o.examiners = o'.examiners
  recording : o.recording = o'.recording
  screenings : List.Forall₂ Screening.Alike o.screenings o'.screenings

theorem forall₂_alike_refl (screenings : List Screening) :
    List.Forall₂ Screening.Alike screenings screenings :=
  List.forall₂_same.mpr fun s _ => .refl s

theorem forall₂_alike_set {ss ts : List Screening} (h : List.Forall₂ Screening.Alike ss ts)
    {s t : Screening} (hst : s.Alike t) (slot : Nat) :
    List.Forall₂ Screening.Alike (ss.set slot s) (ts.set slot t) := by
  induction h generalizing slot with
  | nil => exact .nil
  | cons hHead hTail ih =>
    cases slot with
    | zero => exact .cons hst hTail
    | succ slot => exact .cons hHead (ih slot)

variable {o o' : Office}

theorem Alike.screening_cases (h : o.Alike o') (slot : Nat) :
    (o.screenings[slot]? = none ∧ o'.screenings[slot]? = none) ∨
      ∃ s t, o.screenings[slot]? = some s ∧ o'.screenings[slot]? = some t ∧ s.Alike t := by
  cases hs : o.screenings[slot]? with
  | none =>
    refine .inl ⟨rfl, ?_⟩
    rw [List.getElem?_eq_none_iff] at hs ⊢
    rwa [← h.screenings.length_eq]
  | some s =>
    obtain ⟨t, ht, hst⟩ := QuerySet.exists_getElem?_of_forall₂ h.screenings hs
    exact .inr ⟨s, t, rfl, ht, hst⟩

/-- A step in a slot keeps the offices alike. It answers alike, unless it asks for the last result,
and makes the slot the same in both if it changes the slot. -/
theorem Alike.screeningStep (h : o.Alike o') {slot : Nat} {s t : Screening} (hst : s.Alike t)
    (c : ScreeningCommand) :
    (o.screeningStep slot s c).1.Alike (o'.screeningStep slot t c).1 ∧
      (Command.asksLast (.screening slot c) = false →
        (o.screeningStep slot s c).2.answer = (o'.screeningStep slot t c).2.answer) := by
  have hLength : o.screenings.length = o'.screenings.length := h.screenings.length_eq
  have hSet (e : Event) : List.Forall₂ Screening.Alike (o.screenings.set slot (s.after e))
      (o'.screenings.set slot (t.after e)) :=
    forall₂_alike_set h.screenings (hst.after_eq e ▸ .refl _) slot
  have hNew {new new' : Screening} (hAlike : new.Alike new') :
      List.Forall₂ Screening.Alike (o.screenings ++ [new]) (o'.screenings ++ [new']) :=
    List.rel_append h.screenings (.cons hAlike .nil)
  cases c with
  | setUp =>
    refine ⟨⟨h.examiners, h.recording, hSet (.setUp true)⟩, fun _ => ?_⟩
    simp only [Office.screeningStep, Screening.setUp_congr hst.wanted hst.binding]
  | bind document kind =>
    exact ⟨⟨h.examiners, h.recording, hSet (.bound document kind)⟩, fun _ => rfl⟩
  | decideBound =>
    refine ⟨⟨h.examiners, h.recording, hSet (.decided true)⟩, fun _ => ?_⟩
    simp only [Office.screeningStep, hst.decideBound_eq]
  | decideFree document kind =>
    refine ⟨h, fun _ => ?_⟩
    simp only [Office.screeningStep, hst.decideFree_eq, hst.queries]
  | explain => exact ⟨h, fun hAsks => absurd hAsks Bool.false_ne_true.symm⟩
  | lastFiring => exact ⟨h, fun hAsks => absurd hAsks Bool.false_ne_true.symm⟩
  | queries =>
    refine ⟨h, fun _ => ?_⟩
    simp only [Office.screeningStep, hst.queries]
  | wanted =>
    refine ⟨h, fun _ => ?_⟩
    simp only [Office.screeningStep, hst.wanted]
  | fork =>
    have hFork : s.fork.Alike t.fork := Screening.fork_congr hst.wanted hst.queries ▸ .refl _
    refine ⟨⟨h.examiners, h.recording, hNew hFork⟩, fun _ => ?_⟩
    simp only [Office.screeningStep, hst.queries, hLength]
  | clone =>
    refine ⟨⟨h.examiners, h.recording, hNew hst⟩, fun _ => ?_⟩
    simp only [Office.screeningStep, hst.queries, hLength]

theorem Alike.step (h : o.Alike o') (c : Command) :
    (o.step c).1.Alike (o'.step c).1 ∧
      (c.asksLast = false → (o.step c).2.answer = (o'.step c).2.answer) := by
  cases c with
  | examiner slot c =>
    cases hSlot : o.examiners[slot]? with
    | none =>
      rw [step_examiner_of_none hSlot, step_examiner_of_none (h.examiners ▸ hSlot)]
      exact ⟨h, fun _ => rfl⟩
    | some e =>
      rw [step_examiner_of_some hSlot, step_examiner_of_some (h.examiners ▸ hSlot),
        answer_observed, answer_observed]
      cases c <;> refine ⟨⟨?_, h.recording, h.screenings⟩, fun _ => ?_⟩ <;>
        simp [examinerStep, step.observed, h.examiners]
  | screening slot c =>
    rcases h.screening_cases slot with ⟨hs, ht⟩ | ⟨s, t, hs, ht, hst⟩
    · rw [step_screening_eq_noSlot hs, step_screening_eq_noSlot ht]
      exact ⟨h, fun _ => rfl⟩
    · obtain ⟨hState, hAnswer⟩ := step_screening_of_some hs c
      obtain ⟨hState', hAnswer'⟩ := step_screening_of_some ht c
      rw [hState, hAnswer, hState', hAnswer']
      exact h.screeningStep hst c
  | startRecording => exact ⟨⟨h.examiners, rfl, h.screenings⟩, fun _ => rfl⟩
  | stopRecording => exact ⟨⟨h.examiners, rfl, h.screenings⟩, fun _ => rfl⟩

theorem Alike.run (h : o.Alike o') (cs : List Command) :
    (o.run cs).1.Alike (o'.run cs).1 ∧
      (o.trace cs).filter (fun x => !x.1.asksLast) =
        (o'.trace cs).filter (fun x => !x.1.asksLast) := by
  induction cs generalizing o o' with
  | nil => exact ⟨h, rfl⟩
  | cons c cs ih =>
    obtain ⟨hState, hAnswer⟩ := h.step c
    obtain ⟨hLast, hTrace⟩ := ih hState
    rw [run_cons, run_cons, trace_cons, trace_cons]
    refine ⟨hLast, ?_⟩
    cases hAsks : c.asksLast with
    | true =>
      rw [List.filter_cons_of_neg (by simp [hAsks]), List.filter_cons_of_neg (by simp [hAsks]),
        hTrace]
    | false =>
      rw [List.filter_cons_of_pos (by simp [hAsks]), List.filter_cons_of_pos (by simp [hAsks]),
        hTrace, hAnswer hAsks]

theorem Alike.map_stage (h : o.Alike o') :
    o.screenings.map Screening.stage = o'.screenings.map Screening.stage := by
  have hStages : List.Forall₂ (fun s t : Screening => s.stage = t.stage) o.screenings
      o'.screenings := h.screenings.imp fun _ _ hst => hst.stage_eq
  rw [← List.forall₂_eq_eq_eq, List.forall₂_map_left_iff, List.forall₂_map_right_iff]
  exact hStages

theorem Alike.screening_step_of_changes (h : o.Alike o') {c : Command} {slot : Nat}
    (hChanges : c.changes slot = true) :
    (o.step c).1.screenings[slot]? = (o'.step c).1.screenings[slot]? := by
  have hSame (c : ScreeningCommand) (e : Event)
      (hStep : ∀ (o : Office) (s : Screening), o.screenings[slot]? = some s →
        (o.step (.screening slot c)).1.screenings[slot]? = some (s.after e)) :
      (o.step (.screening slot c)).1.screenings[slot]? =
        (o'.step (.screening slot c)).1.screenings[slot]? := by
    rcases h.screening_cases slot with ⟨hs, ht⟩ | ⟨s, t, hs, ht, hst⟩
    · rw [(step_screening_of_none hs c).1, (step_screening_of_none ht c).1, hs, ht]
    · rw [hStep o s hs, hStep o' t ht, hst.after_eq e]
  unfold Command.changes at hChanges
  split at hChanges
  · obtain rfl := beq_iff_eq.mp hChanges
    exact hSame .setUp (.setUp true) fun _ _ hs => (screening_step_self hs).1
  · next document kind =>
    obtain rfl := beq_iff_eq.mp hChanges
    exact hSame (.bind document kind) (.bound document kind) fun _ _ hs =>
      (screening_step_self hs).2.1 document kind
  · obtain rfl := beq_iff_eq.mp hChanges
    exact hSame .decideBound (.decided true) fun _ _ hs => (screening_step_self hs).2.2
  · cases hChanges

theorem alike_setUp_again {slot : Nat} {s : Screening} (hs : o.screenings[slot]? = some s)
    (hSound : s.Sound) (hStage : s.stage ≠ .uninitialized) :
    (o.step (.screening slot .setUp)).1.Alike o := by
  rw [(step_screening_of_some hs .setUp).1]
  refine ⟨rfl, rfl, ?_⟩
  have hSet := forall₂_alike_set (forall₂_alike_refl o.screenings)
    (hSound.alike_setUp_again hStage) slot
  obtain ⟨hLt, rfl⟩ := List.getElem?_eq_some_iff.mp hs
  rwa [List.set_getElem_self] at hSet

theorem setUp_again_eq_self {slot : Nat} {s : Screening} (hs : o.screenings[slot]? = some s)
    (hSound : s.Sound) (hStage : s.stage ≠ .uninitialized) (hExplain : s.explain = .noMatch) :
    (o.step (.screening slot .setUp)).1 = o := by
  rw [(step_screening_of_some hs .setUp).1]
  have hState : s.setUp.1 = s := by
    rw [hSound.setUp_again hStage, (hSound.quiet_of_explain hExplain).map_reset]
  obtain ⟨hLt, rfl⟩ := List.getElem?_eq_some_iff.mp hs
  simp only [Office.screeningStep, hState, List.set_getElem_self]

/-- A slot that is set up is set up once more, after any run. Nothing is explained then. If nothing
was explained before, no later run can tell; otherwise the next question can. In any case later
commands that do not ask for the last result are answered alike, the stages of all slots are the
same, and so is every slot that is bound, decided or set up. -/
theorem trace_setUp_again {wanted : List Code} {cs : List Command} {slot : Nat} {s : Screening}
    (hs : ((opening wanted).run cs).1.screenings[slot]? = some s)
    (hStage : s.stage ≠ .uninitialized) :
    let o := ((opening wanted).run cs).1
    let again := (o.step (.screening slot .setUp)).1
    again.explanationAt slot = some .noMatch ∧
    ((∀ later, again.trace later = o.trace later) ↔ s.explain = .noMatch) ∧
    ∀ later,
      (again.trace later).filter (fun x => !x.1.asksLast) =
        (o.trace later).filter (fun x => !x.1.asksLast) ∧
      (again.run later).1.screenings.map Screening.stage =
        (o.run later).1.screenings.map Screening.stage ∧
      ∀ (i : Nat) (c : Command), c.changes i = true →
        (again.run (later ++ [c])).1.screenings[i]? = (o.run (later ++ [c])).1.screenings[i]? := by
  intro o again
  have hSound : s.Sound := sound_of_run hs
  have hAlike : again.Alike o := alike_setUp_again hs hSound hStage
  have hNone : again.explanationAt slot = some .noMatch := by
    rw [explanationAt, (screening_step_self hs).1, Option.map_some, s.quiet_setUp.explain]
  refine ⟨hNone, ⟨fun hTraces => ?_, fun hExplain later => ?_⟩, fun later => ?_⟩
  · have hAnswers := hTraces [.screening slot .explain]
    rw [trace_cons, trace_cons] at hAnswers
    have hAnswer := (Prod.mk.inj (List.cons.inj hAnswers).1).2
    rw [(answer_step_explain_iff again slot .noMatch).mpr hNone] at hAnswer
    have hOld := (answer_step_explain_iff o slot .noMatch).mp hAnswer.symm
    rw [explanationAt, hs, Option.map_some] at hOld
    exact Option.some.inj hOld
  · have hSame : again = o := setUp_again_eq_self hs hSound hStage hExplain
    rw [hSame]
  · obtain ⟨hLater, hTrace⟩ := hAlike.run later
    refine ⟨hTrace, hLater.map_stage, fun i c hChanges => ?_⟩
    rw [fst_run_append, fst_run_append]
    exact hLater.screening_step_of_changes hChanges

/-- A match is decided and explained. The slot is set up again and the document is still bound, but
the explanation of the decision is gone. -/
theorem explanation_lost_by_setUp :
    let document := "<PATDOC><SDOBI><B500><B520><B521><PDAT>7051"
    let o := ((opening [.uspc "705"]).run [.screening 0 .setUp,
      .screening 0 (.bind document .grant), .screening 0 .decideBound]).1
    let again := (o.step (.screening 0 .setUp)).1
    (o.step (.screening 0 .explain)).2.answer = .explanation (.matched (.uspc "705") .primary
        "/PATDOC/SDOBI/B500/B520/B521[starts-with(PDAT, '705')]" "7051") ∧
      (o.step (.screening 0 .setUp)).2.answer = .setUp ∧
      again.screenings.map Screening.binding = [some ⟨document, .grant⟩] ∧
      (again.step (.screening 0 .explain)).2.answer = .explanation .noMatch := by
  decide +kernel

/-- A match, a fork and a clone; then the first slot is set up again and its clone is not. -/
theorem trace_setUp_again_cloned :
    let document := "<PATDOC><SDOBI><B500><B520><B521><PDAT>7051"
    let s : Screening := ⟨[.uspc "705"],
      some ⟨.ofQueries [.ofSound (.uspc "705")], some ⟨0, 0, .primary, "7051"⟩⟩,
      some ⟨document, .grant⟩⟩
    let o := ((opening [.uspc "705"]).run [.screening 0 .setUp,
      .screening 0 (.bind document .grant), .screening 0 .decideBound, .screening 0 .clone]).1
    let again := (o.step (.screening 0 .setUp)).1
    o.screenings[0]? = some s ∧ s.stage ≠ .uninitialized ∧
      (∃ later, again.trace later ≠ o.trace later) ∧
      (again.run [.screening 0 .explain, .screening 0 .decideBound]).1.screenings[0]? =
        (o.run [.screening 0 .explain, .screening 0 .decideBound]).1.screenings[0]? := by
  intro document s o again
  have hs : o.screenings[0]? = some s := by decide +kernel
  have hStage : s.stage ≠ .uninitialized := by decide
  obtain ⟨_, hIff, hLater⟩ := trace_setUp_again hs hStage
  have hExplain : s.explain ≠ .noMatch := by decide +kernel
  refine ⟨hs, hStage, not_forall.mp fun hTraces => hExplain (hIff.mp hTraces), ?_⟩
  exact (hLater [.screening 0 .explain]).2.2 0 (.screening 0 .decideBound) rfl

end Office

end PatentFilter

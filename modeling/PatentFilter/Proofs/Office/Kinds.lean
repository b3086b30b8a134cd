import PatentFilter.Proofs.Office.Histories

/-!
# Free decisions, and kinds of documents

A free decision gives what the same document would give once it is bound, and touches nothing. The
kind of a document is kept with the binding and told in the log, but an office in which every
document is taken for a grant goes through the same stages and gives the same answers.
-/

namespace PatentFilter

def Binding.asGrant (b : Binding) : Binding := { b with kind := .grant }

namespace Screening

def asGrant (s : Screening) : Screening := { s with binding := s.binding.map Binding.asGrant }

@[simp] theorem stage_asGrant (s : Screening) : s.asGrant.stage = s.stage := by
  cases hExaminer : s.examiner <;> cases hBinding : s.binding <;>
    simp [stage, asGrant, hExaminer, hBinding]

@[simp] theorem lastFiring?_asGrant (s : Screening) : s.asGrant.lastFiring? = s.lastFiring? := rfl

@[simp] theorem explain_asGrant (s : Screening) : s.asGrant.explain = s.explain := rfl

@[simp] theorem text_asGrant (s : Screening) : s.asGrant.text = s.text := rfl

@[simp] theorem queries?_asGrant (s : Screening) : s.asGrant.queries? = s.queries? := rfl

@[simp] theorem fork_asGrant (s : Screening) : s.asGrant.fork = s.fork.asGrant := rfl

theorem setUp_asGrant (s : Screening) :
    s.asGrant.setUp.1 = s.setUp.1.asGrant ∧ s.asGrant.setUp.2 = s.setUp.2 := by
  have hWanted : s.asGrant.wanted = s.wanted := rfl
  rw [setUp, setUp, hWanted]
  split <;> exact ⟨rfl, rfl⟩

theorem decideBound_asGrant (s : Screening) :
    s.asGrant.decideBound.1 = s.decideBound.1.asGrant ∧
      s.asGrant.decideBound.2.1 = s.decideBound.2.1 ∧
      s.asGrant.decideBound.2.2.2 = s.decideBound.2.2.2 := by
  cases hExaminer : s.examiner <;> cases hBinding : s.binding <;>
    simp [decideBound, asGrant, hExaminer, hBinding, Binding.asGrant]

theorem decideFree_asGrant (s : Screening) (document : String) (kind : DocumentKind) :
    (s.asGrant.decideFree document .grant).1 = (s.decideFree document kind).1 ∧
      (s.asGrant.decideFree document .grant).2.2 = (s.decideFree document kind).2.2 := by
  cases hExaminer : s.examiner <;> simp [decideFree, asGrant, hExaminer]

end Screening

def ScreeningCommand.asGrant : ScreeningCommand → ScreeningCommand
  | .bind document _ => .bind document .grant
  | .decideFree document _ => .decideFree document .grant
  | c => c

def Command.asGrant : Command → Command
  | .screening slot c => .screening slot c.asGrant
  | c => c

/-- The same command, but for the kind of the document that it hands over. -/
inductive Command.SameButKind : Command → Command → Prop
  | refl (c : Command) : SameButKind c c
  | bind (slot : Nat) (document : String) (kind kind' : DocumentKind) :
    SameButKind (.screening slot (.bind document kind)) (.screening slot (.bind document kind'))
  | decideFree (slot : Nat) (document : String) (kind kind' : DocumentKind) :
    SameButKind (.screening slot (.decideFree document kind))
      (.screening slot (.decideFree document kind'))

theorem Command.SameButKind.asGrant_eq {c c' : Command} (h : c.SameButKind c') :
    c.asGrant = c'.asGrant := by
  cases h <;> rfl

def Reply.withoutLog (r : Reply) : Reply := { r with log := [] }

namespace Office

def asGrant (o : Office) : Office := { o with screenings := o.screenings.map Screening.asGrant }

theorem examinerStep_asGrant (o : Office) (slot : Nat) (e : Examiner) (c : ExaminerCommand) :
    o.asGrant.examinerStep slot e c =
      ((o.examinerStep slot e c).1.asGrant, (o.examinerStep slot e c).2) := by
  cases c <;> rfl

theorem screeningStep_asGrant (o : Office) (slot : Nat) (s : Screening) (c : ScreeningCommand) :
    (o.asGrant.screeningStep slot s.asGrant c.asGrant).1 = (o.screeningStep slot s c).1.asGrant ∧
      (o.asGrant.screeningStep slot s.asGrant c.asGrant).2.withoutLog =
        (o.screeningStep slot s c).2.withoutLog := by
  cases c with
  | setUp =>
    obtain ⟨hState, hRest⟩ := s.setUp_asGrant
    simp [screeningStep, ScreeningCommand.asGrant, asGrant, hState, hRest]
  | bind document kind =>
    simp [screeningStep, ScreeningCommand.asGrant, asGrant, Screening.bind, Screening.asGrant,
      Binding.asGrant, Reply.withoutLog]
  | decideBound =>
    obtain ⟨hState, hOutcome, hDecisions⟩ := s.decideBound_asGrant
    simp [screeningStep, ScreeningCommand.asGrant, asGrant, hState, hOutcome, hDecisions,
      Reply.withoutLog]
  | decideFree document kind =>
    obtain ⟨hOutcome, hRest⟩ := s.decideFree_asGrant document kind
    simp [screeningStep, ScreeningCommand.asGrant, asGrant, hOutcome, hRest, Reply.withoutLog]
  | explain => exact ⟨rfl, rfl⟩
  | lastFiring => exact ⟨rfl, rfl⟩
  | queries => exact ⟨rfl, rfl⟩
  | wanted => exact ⟨rfl, rfl⟩
  | fork => simp [screeningStep, ScreeningCommand.asGrant, asGrant]
  | clone => simp [screeningStep, ScreeningCommand.asGrant, asGrant]

theorem observed_asGrant {o : Office} {r r' : Office × Reply}
    (h : r'.1 = r.1.asGrant ∧ r'.2.withoutLog = r.2.withoutLog) :
    (step.observed o.asGrant r').1 = (step.observed o r).1.asGrant ∧
      (step.observed o.asGrant r').2.withoutLog = (step.observed o r).2.withoutLog := by
  obtain ⟨hOffice, hReply⟩ := h
  refine ⟨hOffice, ?_⟩
  have hRecording : o.asGrant.recording = o.recording := rfl
  simp only [step.observed, hRecording]
  split
  · exact hReply
  · exact congrArg (fun r : Reply => { r with decisions := [] }) hReply

theorem step_asGrant (o : Office) (c : Command) :
    (o.asGrant.step c.asGrant).1 = (o.step c).1.asGrant ∧
      (o.asGrant.step c.asGrant).2.withoutLog = (o.step c).2.withoutLog := by
  cases c with
  | examiner slot c =>
    have hExaminers : o.asGrant.examiners = o.examiners := rfl
    simp only [Command.asGrant, step, hExaminers]
    cases o.examiners[slot]? with
    | none => exact ⟨rfl, rfl⟩
    | some e =>
      refine observed_asGrant ?_
      rw [examinerStep_asGrant]
      exact ⟨rfl, rfl⟩
  | screening slot c =>
    have hScreenings : o.asGrant.screenings = o.screenings.map Screening.asGrant := rfl
    simp only [Command.asGrant, step, hScreenings, List.getElem?_map]
    cases o.screenings[slot]? with
    | none => exact ⟨rfl, rfl⟩
    | some s => exact observed_asGrant (screeningStep_asGrant o slot s c)
  | startRecording => exact ⟨rfl, rfl⟩
  | stopRecording => exact ⟨rfl, rfl⟩

theorem run_asGrant (o : Office) (cs : List Command) :
    (o.asGrant.run (cs.map Command.asGrant)).1 = (o.run cs).1.asGrant ∧
      (o.asGrant.run (cs.map Command.asGrant)).2.map Reply.withoutLog =
        (o.run cs).2.map Reply.withoutLog := by
  induction cs generalizing o with
  | nil => exact ⟨rfl, rfl⟩
  | cons c cs ih =>
    obtain ⟨hOffice, hReply⟩ := o.step_asGrant c
    obtain ⟨hLast, hReplies⟩ := ih (o.step c).1
    rw [List.map_cons, run_cons, run_cons, hOffice, List.map_cons, List.map_cons, hReply, hReplies]
    exact ⟨hLast, rfl⟩

theorem run_congr_of_sameButKind (o : Office) {cs cs' : List Command}
    (h : List.Forall₂ Command.SameButKind cs cs') :
    (o.run cs).1.asGrant = (o.run cs').1.asGrant ∧
      (o.run cs).2.map Reply.withoutLog = (o.run cs').2.map Reply.withoutLog := by
  have hCommands : cs.map Command.asGrant = cs'.map Command.asGrant := by
    induction h with
    | nil => rfl
    | cons hHead _ ih => rw [List.map_cons, List.map_cons, hHead.asGrant_eq, ih]
  obtain ⟨hOffice, hReplies⟩ := o.run_asGrant cs
  obtain ⟨hOffice', hReplies'⟩ := o.run_asGrant cs'
  rw [hCommands] at hOffice hReplies
  exact ⟨hOffice.symm.trans hOffice', hReplies.symm.trans hReplies'⟩

theorem views_eq_of_asGrant_eq {o o' : Office} (h : o.asGrant = o'.asGrant) :
    (o.screenings.map fun s => (s.stage, s.text, s.explain, s.lastFiring?)) =
      o'.screenings.map fun s => (s.stage, s.text, s.explain, s.lastFiring?) := by
  have hViews (o : Office) :
      (o.asGrant.screenings.map fun s => (s.stage, s.text, s.explain, s.lastFiring?)) =
        o.screenings.map fun s => (s.stage, s.text, s.explain, s.lastFiring?) := by
    simp [asGrant, Function.comp_def]
  rw [← hViews o, h, hViews o']

/-- A clone that binds and decides a document remembers what a free decision answers. -/
theorem decideFree_eq_decided_clone {o : Office} {slot : Nat} {s : Screening}
    (hs : o.screenings[slot]? = some s) (hStage : s.stage ≠ .uninitialized) (document : String)
    (kind kind' : DocumentKind) :
    let new := o.screenings.length
    ∃ t e, (o.run [.screening slot .clone, .screening new (.bind document kind'),
        .screening new .decideBound]).1.screenings[new]? = some t ∧
      t.examiner = some e ∧
      (o.step (.screening slot (.decideFree document kind))).2.answer =
        .result e.last t.lastFiring? := by
  intro new
  obtain ⟨e, hExaminer⟩ : ∃ e, s.examiner = some e := by
    rw [← Option.ne_none_iff_exists', Ne, ← Screening.stage_eq_uninitialized_iff]
    exact hStage
  have hCloned := (screening_step_new hs).1
  have hBound := (screening_step_self hCloned).2.1 document kind'
  have hDecided := (screening_step_self hBound).2.2
  rw [Screening.decideBound_bind hExaminer] at hDecided
  refine ⟨_, _, hDecided, rfl, ?_⟩
  rw [(step_screening_of_some hs (.decideFree document kind)).2]
  simp [screeningStep, Screening.decideFree, hExaminer, Screening.lastFiring?, Screening.queries?,
    Examiner.lastFiring?]

/-- A free decision of a slot that is set up answers what a clone would remember after binding and
deciding the document, under any kinds, and changes nothing. Two runs that differ only in kinds
give the same answers and decisions, and after each step all slots show the same. -/
theorem kinds_decide_nothing (wanted : List Code) :
    (∀ cs slot s, ((opening wanted).run cs).1.screenings[slot]? = some s →
      s.stage ≠ .uninitialized → ∀ document kind kind',
        let o := ((opening wanted).run cs).1
        let new := o.screenings.length
        let free := o.step (.screening slot (.decideFree document kind))
        (∃ t e, (o.run [.screening slot .clone, .screening new (.bind document kind'),
            .screening new .decideBound]).1.screenings[new]? = some t ∧
          t.examiner = some e ∧ free.2.answer = .result e.last t.lastFiring?) ∧
        free.1 = o) ∧
    ∀ (o : Office) (cs cs' : List Command), List.Forall₂ Command.SameButKind cs cs' →
      (o.run cs).2.map Reply.withoutLog = (o.run cs').2.map Reply.withoutLog ∧
      ∀ n, ((o.run (cs.take n)).1.screenings.map fun s =>
          (s.stage, s.text, s.explain, s.lastFiring?)) =
        (o.run (cs'.take n)).1.screenings.map fun s =>
          (s.stage, s.text, s.explain, s.lastFiring?) := by
  refine ⟨fun cs slot s hs hStage document kind kind' => ?_, fun o cs cs' h => ⟨?_, fun n => ?_⟩⟩
  · refine ⟨decideFree_eq_decided_clone hs hStage document kind kind', ?_⟩
    rw [(step_screening_of_some hs (.decideFree document kind)).1]
    rfl
  · exact (o.run_congr_of_sameButKind h).2
  · exact views_eq_of_asGrant_eq (o.run_congr_of_sameButKind (List.forall₂_take n h)).1

/-- A match is remembered while another document is decided freely, as an application; with the
first document an application too, the run replies alike. -/
theorem kinds_decide_nothing_application :
    let document := "<PATDOC><SDOBI><B500><B520><B521><PDAT>7051"
    let asked (kind : DocumentKind) := [.screening 0 .setUp, .screening 0 (.bind document kind),
      .screening 0 .decideBound]
    let s : Screening := ⟨[.uspc "705"],
      some ⟨.ofQueries [.ofSound (.uspc "705")], some ⟨0, 0, .primary, "7051"⟩⟩,
      some ⟨document, .grant⟩⟩
    let o := ((opening [.uspc "705"]).run (asked .grant)).1
    o.screenings[0]? = some s ∧ s.stage ≠ .uninitialized ∧
      (o.step (.screening 0 (.decideFree "" .application))).1 = o ∧
      List.Forall₂ Command.SameButKind (asked .grant) (asked .application) ∧
      ((opening [.uspc "705"]).run (asked .grant)).2.map Reply.withoutLog =
        ((opening [.uspc "705"]).run (asked .application)).2.map Reply.withoutLog := by
  intro document asked s o
  have hs : o.screenings[0]? = some s := by decide +kernel
  have hStage : s.stage ≠ .uninitialized := by decide
  have hAsked : List.Forall₂ Command.SameButKind (asked .grant) (asked .application) :=
    .cons (.refl _) (.cons (.bind 0 document .grant .application) (.cons (.refl _) .nil))
  obtain ⟨hFree, hRuns⟩ := kinds_decide_nothing [.uspc "705"]
  exact ⟨hs, hStage, (hFree (asked .grant) 0 s hs hStage "" .application .grant).2, hAsked,
    (hRuns (opening [.uspc "705"]) (asked .grant) (asked .application) hAsked).1⟩

end Office

end PatentFilter

import PatentFilter.Proofs.Office.Isolation

/-!
# The lifecycle of a slot

All set-ups of a run end alike. The stage of a slot can be told from its history: whether a set-up
has succeeded in it, and whether something is bound. Histories only grow, so a slot that is set up
remains so. A decision is refused in the stages before its own and nowhere else, and a refusal
changes nothing.
-/

namespace PatentFilter.Office

/-- What an event tells of a command and its answer: a set-up succeeded or failed as answered. -/
def Tells (c : Command) (a : Answer) : Event → Prop
  | .setUp succeeded =>
    ∃ slot, c = .screening slot .setUp ∧
      (succeeded = true ∧ a = .setUp ∨ succeeded = false ∧ ∃ f, a = .fault f)
  | _ => True

theorem mem_modify_concat {P : Event → Prop} {hs : List History} {i : Nat} {e : Event}
    {own : History} (h : own ∈ hs.modify i (· ++ [e])) (he : P e) :
    own ∈ hs ∨ ∃ before ∈ hs, ∃ e, own = before ++ [e] ∧ P e := by
  obtain ⟨j, hj⟩ := List.mem_iff_getElem?.mp h
  rw [List.getElem?_modify] at hj
  obtain ⟨before, hBefore, hOwn⟩ := Option.map_eq_some_iff.mp hj
  have hMem : before ∈ hs := List.mem_of_getElem? hBefore
  split at hOwn
  · exact .inr ⟨before, hMem, e, hOwn.symm, he⟩
  · rw [← hOwn]
    exact .inl hMem

theorem mem_record {hs : List History} {c : Command} {a : Answer} {own : History}
    (h : own ∈ record hs (c, a)) :
    own ∈ hs ∨ ∃ before ∈ hs, ∃ e, own = before ++ [e] ∧ Tells c a e := by
  unfold record at h
  split at h
  · next i hEq =>
    obtain ⟨rfl, rfl⟩ := Prod.mk.inj hEq
    exact mem_modify_concat h ⟨i, rfl, .inl ⟨rfl, rfl⟩⟩
  · next i f hEq =>
    obtain ⟨rfl, rfl⟩ := Prod.mk.inj hEq
    exact mem_modify_concat h ⟨i, rfl, .inr ⟨rfl, f, rfl⟩⟩
  · exact mem_modify_concat h trivial
  · exact mem_modify_concat h trivial
  · refine (List.mem_append.mp h).imp_right fun hNew => ?_
    obtain ⟨before, hBefore, hOwn⟩ := Option.map_eq_some_iff.mp (Option.mem_toList.mp hNew)
    exact ⟨before, List.mem_of_getElem? hBefore, .forked, hOwn.symm, trivial⟩
  · rcases List.mem_append.mp h with hOld | hNew
    · exact .inl hOld
    · exact .inl (List.mem_of_getElem? (Option.mem_toList.mp hNew))
  · exact .inl h

theorem exists_prefix_modify {hs : List History} {slot : Nat} {own : History}
    (h : hs[slot]? = some own) (i : Nat) (e : Event) :
    ∃ own', (hs.modify i (· ++ [e]))[slot]? = some own' ∧ own <+: own' := by
  rw [List.getElem?_modify, h]
  split
  · exact ⟨own ++ [e], rfl, List.prefix_append own [e]⟩
  · exact ⟨own, rfl, List.prefix_rfl⟩

theorem getElem?_append_of_some {hs : List History} {slot : Nat} {own : History}
    (h : hs[slot]? = some own) (new : List History) : (hs ++ new)[slot]? = some own := by
  rw [List.getElem?_append_left (List.getElem?_eq_some_iff.mp h).1, h]

/-- Histories only grow. -/
theorem exists_prefix_record {hs : List History} {slot : Nat} {own : History}
    (h : hs[slot]? = some own) (x : Command × Answer) :
    ∃ own', (record hs x)[slot]? = some own' ∧ own <+: own' := by
  unfold record
  split
  · exact exists_prefix_modify h _ _
  · exact exists_prefix_modify h _ _
  · exact exists_prefix_modify h _ _
  · exact exists_prefix_modify h _ _
  · exact ⟨own, getElem?_append_of_some h _, List.prefix_rfl⟩
  · exact ⟨own, getElem?_append_of_some h _, List.prefix_rfl⟩
  · exact ⟨own, h, List.prefix_rfl⟩

theorem exists_prefix_foldl_record {hs : List History} {slot : Nat} {own : History}
    (h : hs[slot]? = some own) (ts : List (Command × Answer)) :
    ∃ own', (ts.foldl record hs)[slot]? = some own' ∧ own <+: own' := by
  induction ts generalizing hs own with
  | nil => exact ⟨own, h, List.prefix_rfl⟩
  | cons x ts ih =>
    obtain ⟨next, hNext, hGrown⟩ := exists_prefix_record h x
    obtain ⟨last, hLast, hGrownOn⟩ := ih hNext
    exact ⟨last, hLast, hGrown.trans hGrownOn⟩

theorem answer_step_setUp {o : Office} {slot : Nat} {s : Screening}
    (hs : o.screenings[slot]? = some s) :
    (o.step (.screening slot .setUp)).2.answer =
      match (QuerySet.compile s.wanted).1 with
      | .ok _ => .setUp
      | .error f => .fault (.badCode f) := by
  rw [(step_screening_of_some hs .setUp).2]
  rcases s.setUp_cases with ⟨qs, hCompile, hOutcome, _⟩ | ⟨f, hCompile, hOutcome, _⟩ <;>
    simp [screeningStep, hCompile, hOutcome]

theorem wanted_of_run {wanted : List Code} {cs : List Command} {slot : Nat} {s : Screening}
    (hs : ((opening wanted).run cs).1.screenings[slot]? = some s) : s.wanted = wanted := by
  obtain ⟨own, _, rfl⟩ := getElem?_screenings_run_iff.mp hs
  exact Screening.wanted_replay wanted own

/-- The set-ups of a run are told as they ended, and all end alike. -/
theorem truthful_histories (wanted : List Code) (cs : List Command) :
    ∀ own ∈ histories ((opening wanted).trace cs), own.Truthful wanted := by
  induction cs using List.reverseRecOn with
  | nil =>
    intro own hOwn succeeded hSetUp
    obtain rfl := List.mem_singleton.mp hOwn
    cases hSetUp
  | append_singleton cs c ih =>
    intro own hOwn
    rw [histories_concat] at hOwn
    rcases mem_record hOwn with hOld | ⟨before, hBefore, e, rfl, hEvent⟩
    · exact ih own hOld
    · intro succeeded hSetUp
      rcases List.mem_append.mp hSetUp with hEarlier | hLast
      · exact ih before hBefore succeeded hEarlier
      · obtain rfl := List.mem_singleton.mp hLast
        obtain ⟨slot, rfl, hAnswer⟩ := hEvent
        cases hSlot : ((opening wanted).run cs).1.screenings[slot]? with
        | none => simp [(step_screening_of_none hSlot .setUp).2] at hAnswer
        | some s =>
          rw [answer_step_setUp hSlot, wanted_of_run hSlot] at hAnswer
          cases hCompile : (QuerySet.compile wanted).1 with
          | ok qs => simpa [hCompile, Except.isOk, Except.toBool] using hAnswer
          | error f => simpa [hCompile, Except.isOk, Except.toBool] using hAnswer

theorem stage_replay_eq_uninitialized_iff {wanted : List Code} {own : History}
    (hTruthful : own.Truthful wanted) :
    (Screening.replay wanted own).stage = .uninitialized ↔ .setUp true ∉ own := by
  have hQueries := Screening.queries?_replay hTruthful
  rw [Screening.stage_eq_uninitialized_iff, ← Option.map_eq_none_iff (f := Examiner.queries),
    ← Screening.queries?, hQueries]
  split
  · next hSetUp =>
    have hOk := hTruthful true hSetUp
    cases hCompile : (QuerySet.compile wanted).1 with
    | ok qs => simp [Except.toOption, hSetUp]
    | error f => simp [hCompile, Except.isOk, Except.toBool] at hOk
  · next hSetUp => simp [hSetUp]

theorem stage_of_history {wanted : List Code} {cs : List Command} {slot : Nat} {own : History}
    (hOwn : (histories ((opening wanted).trace cs))[slot]? = some own) :
    let s := Screening.replay wanted own
    (s.stage = .uninitialized ↔ .setUp true ∉ own) ∧
      (s.stage = .ready ↔ .setUp true ∈ own ∧ own.boundDocument = none) ∧
      (s.stage = .bound ↔ .setUp true ∈ own ∧ own.boundDocument ≠ none) := by
  intro s
  have hTruthful := truthful_histories wanted cs own (List.mem_of_getElem? hOwn)
  have hFirst : s.stage = .uninitialized ↔ .setUp true ∉ own :=
    stage_replay_eq_uninitialized_iff hTruthful
  have hSetUp : s.examiner ≠ none ↔ .setUp true ∈ own := by
    rw [Ne, ← Screening.stage_eq_uninitialized_iff, hFirst, not_not]
  have hBinding : s.binding = none ↔ own.boundDocument = none := by
    rw [← Screening.document_binding_replay wanted own, Option.map_eq_none_iff]
  refine ⟨hFirst, ?_, ?_⟩
  · rw [Screening.stage_eq_ready_iff, hSetUp, hBinding]
  · rw [Screening.stage_eq_bound_iff, hSetUp, Ne, Ne, hBinding]

theorem stage_run_ne_uninitialized {wanted : List Code} {cs : List Command} {slot : Nat}
    {own : History} (hOwn : (histories ((opening wanted).trace cs))[slot]? = some own)
    (hSetUp : .setUp true ∈ own) (later : List Command) :
    ∃ s, (((opening wanted).run cs).1.run later).1.screenings[slot]? = some s ∧
      s.stage ≠ .uninitialized := by
  obtain ⟨own', hOwn', hGrown⟩ :=
    exists_prefix_foldl_record hOwn (((opening wanted).run cs).1.trace later)
  have hLater : (histories ((opening wanted).trace (cs ++ later)))[slot]? = some own' := by
    rw [trace_append, histories, List.foldl_append]
    exact hOwn'
  refine ⟨Screening.replay wanted own', ?_, ?_⟩
  · rw [← fst_run_append]
    exact getElem?_screenings_run_iff.mpr ⟨own', hLater, rfl⟩
  · rw [Ne, (stage_of_history hLater).1, not_not]
    exact hGrown.subset hSetUp

theorem step_decideBound_of_fault {o : Office} {slot : Nat} {s : Screening} {f : ScreeningFault}
    (hs : o.screenings[slot]? = some s)
    (hFault : (o.step (.screening slot .decideBound)).2.answer = .fault f) :
    (o.step (.screening slot .decideBound)).1 = o := by
  rw [answer_step_decideBound hs] at hFault
  rw [(step_screening_of_some hs .decideBound).1]
  cases hOutcome : s.decideBound.2.1 with
  | ok isMatch => simp [hOutcome] at hFault
  | error g =>
    obtain ⟨hLt, rfl⟩ := List.getElem?_eq_some_iff.mp hs
    simp [screeningStep, Screening.decideBound_of_error hOutcome]

theorem answer_eq_fault_iff {o : Office} {slot : Nat} {s : Screening}
    (hs : o.screenings[slot]? = some s) (f : ScreeningFault) :
    ((o.step (.screening slot .decideBound)).2.answer = .fault f ↔
      s.stage = .uninitialized ∧ f = .notSetUp ∨ s.stage = .ready ∧ f = .nothingBound) ∧
    ∀ document kind, (o.step (.screening slot (.decideFree document kind))).2.answer = .fault f ↔
      s.stage = .uninitialized ∧ f = .notSetUp := by
  refine ⟨?_, fun document kind => ?_⟩
  · rw [answer_step_decideBound hs, ← Screening.decideBound_eq_error_iff]
    cases s.decideBound.2.1 <;> simp
  · rw [answer_step_decideFree hs, ← Screening.decideFree_eq_error_iff]
    cases (s.decideFree document kind).1 <;> simp

/-- The lifecycle of any slot after any run: how set-ups end, what the stage tells of the history,
that a slot stays set up and keeps what is bound when it is set up, and which decisions are refused
without a trace. -/
theorem lifecycle_of_slot {wanted : List Code} {cs : List Command} {slot : Nat} {s : Screening}
    (hs : ((opening wanted).run cs).1.screenings[slot]? = some s) :
    let o := ((opening wanted).run cs).1
    let ask (c : ScreeningCommand) := o.step (.screening slot c)
    let new := o.screenings.length
    let history (cs : List Command) (slot : Nat) := (histories ((opening wanted).trace cs))[slot]?
    ((ask .setUp).2.answer =
      match (QuerySet.compile wanted).1 with
      | .ok _ => .setUp
      | .error f => .fault (.badCode f)) ∧
    (∃ own, history cs slot = some own ∧
      history (cs ++ [.screening slot .clone]) new = some own ∧
      history (cs ++ [.screening slot .fork]) new = some (own ++ [.forked]) ∧
      (s.stage = .uninitialized ↔ .setUp true ∉ own) ∧
      (s.stage = .ready ↔ .setUp true ∈ own ∧ own.boundDocument = none) ∧
      (s.stage = .bound ↔ .setUp true ∈ own ∧ own.boundDocument ≠ none) ∧
      s.binding.map Binding.document = own.boundDocument) ∧
    (ask .clone).1.screenings[new]? = some s ∧
    (∃ t, (ask .fork).1.screenings[new]? = some t ∧ t.binding = none ∧
      (t.stage = .uninitialized ↔ s.stage = .uninitialized)) ∧
    (∃ t, (ask .setUp).1.screenings[slot]? = some t ∧ t.binding = s.binding) ∧
    (s.stage ≠ .uninitialized → ∀ later, ∃ t, (o.run later).1.screenings[slot]? = some t ∧
      t.stage ≠ .uninitialized) ∧
    (∀ f, (ask .decideBound).2.answer = .fault f ↔
      s.stage = .uninitialized ∧ f = .notSetUp ∨ s.stage = .ready ∧ f = .nothingBound) ∧
    ((∃ isMatch, (ask .decideBound).2.answer = .verdict isMatch) ↔ s.stage = .bound) ∧
    (∀ f, (ask .decideBound).2.answer = .fault f → (ask .decideBound).1 = o) ∧
    ∀ document kind,
      (∀ f, (ask (.decideFree document kind)).2.answer = .fault f ↔
        s.stage = .uninitialized ∧ f = .notSetUp) ∧
      ((∃ hit firing, (ask (.decideFree document kind)).2.answer = .result hit firing) ↔
        s.stage ≠ .uninitialized) ∧
      (ask (.decideFree document kind)).1 = o := by
  intro o ask new history
  obtain ⟨own, hOwn, hReplay⟩ := getElem?_screenings_run_iff.mp hs
  obtain ⟨hFirst, hReady, hBound⟩ := stage_of_history hOwn
  obtain ⟨hCloned, hForked⟩ := getElem?_histories_new hOwn
  obtain ⟨hClone, hFork⟩ := screening_step_new hs
  rw [hReplay] at hFirst hReady hBound
  refine ⟨?_, ⟨own, hOwn, hCloned, hForked, hFirst, hReady, hBound, ?_⟩, hClone, ?_, ?_, ?_,
    fun f => (answer_eq_fault_iff hs f).1, ?_, fun f => step_decideBound_of_fault hs,
    fun document kind => ⟨fun f => (answer_eq_fault_iff hs f).2 document kind, ?_, ?_⟩⟩
  · rw [answer_step_setUp hs, wanted_of_run hs]
  · rw [← hReplay, Screening.document_binding_replay]
  · refine ⟨s.fork, hFork, rfl, ?_⟩
    simp [Screening.stage_eq_uninitialized_iff, Screening.fork]
  · exact ⟨s.setUp.1, (screening_step_self hs).1, s.frame_setUp.2⟩
  · intro hSetUp later
    rw [Ne, hFirst, not_not] at hSetUp
    exact stage_run_ne_uninitialized hOwn hSetUp later
  · rw [← Screening.exists_decideBound_eq_ok_iff, answer_step_decideBound hs]
    cases s.decideBound.2.1 <;> simp
  · rw [answer_step_decideFree hs]
    rcases s.decideFree_stages document kind with ⟨hStage, h⟩ | ⟨e, hStage, _, h⟩ <;>
      simp [h, hStage]
  · rw [(step_screening_of_some hs (.decideFree document kind)).1]
    rfl

/-- A document is bound, then a set-up succeeds, then a fork is made. -/
theorem lifecycle_of_slot_boundFirst :
    let cs := [.screening 0 (.bind "<PATDOC>" .grant), .screening 0 .setUp, .screening 0 .fork]
    let o := ((opening [.uspc "705"]).run cs).1
    let qs := QuerySet.ofQueries [.ofSound (.uspc "705")]
    let s : Screening := ⟨[.uspc "705"], some ⟨qs, none⟩, some ⟨"<PATDOC>", .grant⟩⟩
    let t : Screening := ⟨[.uspc "705"], some ⟨qs, none⟩, none⟩
    o.screenings[0]? = some s ∧ s.stage = .bound ∧
      (∃ isMatch, (o.step (.screening 0 .decideBound)).2.answer = .verdict isMatch) ∧
      o.screenings[1]? = some t ∧ t.stage = .ready ∧
      (o.step (.screening 1 .decideBound)).2.answer = .fault .nothingBound := by
  intro cs o qs s t
  have hs : o.screenings[0]? = some s := by decide +kernel
  have ht : o.screenings[1]? = some t := by decide +kernel
  obtain ⟨_, _, _, _, _, _, _, hVerdict, _⟩ := lifecycle_of_slot hs
  obtain ⟨_, _, _, _, _, _, hFault, _⟩ := lifecycle_of_slot ht
  exact ⟨hs, rfl, hVerdict.mpr rfl, ht, rfl, (hFault .nothingBound).mpr (.inr ⟨rfl, rfl⟩)⟩

end PatentFilter.Office

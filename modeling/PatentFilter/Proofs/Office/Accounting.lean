import PatentFilter.Proofs.Office.Isolation

/-!
# Every decision is accounted for once

A step that decides a document leaves one entry on the outcome in the log and, while decisions are
recorded, one record. Both are resolved from the hit of the result, which works because every set
of queries in an office leads back from its hits to its queries. All other steps leave neither.
-/

namespace PatentFilter

def LogEntry.isOutcome (e : LogEntry) : Bool :=
  e.name = "document_matched" || e.name = "document_not_matched"

def Command.asksDecision : Command → Bool
  | .examiner _ (.decide _) => true
  | .examiner _ (.decideFree _) => true
  | .screening _ .decideBound => true
  | .screening _ (.decideFree _ _) => true
  | _ => false

def Answer.isRefusal : Answer → Bool
  | .fault _ => true
  | .noSlot => true
  | _ => false

def Command.decides (c : Command) (a : Answer) : Bool :=
  c.asksDecision && !a.isRefusal

/-- An answer gives a result in full, or as a verdict while the examiner remembers it. -/
def Answer.Gives (a : Answer) (examiner : Option Examiner) (hit : Option Hit) : Prop :=
  (∃ f, a = .result hit f) ∨ a = .verdict hit.isSome ∧ ∃ e, examiner = some e ∧ e.last = hit

/-- A reply with one record, if decisions are recorded, and one entry on the outcome, which agree
with the result that was found with the queries. -/
structure Reply.AccountsFor (r : Reply) (recording : Bool) (s : QuerySet) (hit : Option Hit) :
    Prop where
  matched : ∀ h, hit = some h → ∃ q, s.queries[h.query]? = some q ∧
    r.decisions = (if recording then [⟨s.queries.length, some q.scheme⟩] else []) ∧
    (r.log.filter LogEntry.isOutcome).map (fun e => (e.name, e.fields)) =
      [("document_matched",
        [("code", q.code.text), ("location", Variant.tag h.location), ("value", h.value)])]
  unmatched : hit = none →
    r.decisions = (if recording then [⟨s.queries.length, none⟩] else []) ∧
    (r.log.filter LogEntry.isOutcome).map (fun e => (e.name, e.fields)) =
      [("document_not_matched", [("queries", toString s.queries.length)])]

structure Reply.Idle (r : Reply) : Prop where
  decisions : r.decisions = []
  outcomes : r.log.filter LogEntry.isOutcome = []

namespace QuerySet

theorem Indexed.decide_cases {s : QuerySet} (hs : s.Indexed) (document : String) :
    (s.evaluate document = none ∧
      (s.decide document).2 = (.documentUnmatched s.queries.length, ⟨s.queries.length, none⟩)) ∨
    ∃ h q, s.evaluate document = some h ∧ s.queries[h.query]? = some q ∧
      (s.decide document).2 =
        (.documentMatched q.code h.location h.value, ⟨s.queries.length, some q.scheme⟩) := by
  cases hHit : s.evaluate document with
  | none => exact .inl ⟨rfl, by simp [decide, hHit]⟩
  | some h =>
    obtain ⟨f, hFiring, hOwn, hQuery, _⟩ := hs.exists_firing hHit
    exact .inr ⟨h, f.query, rfl, hQuery, by simp [decide, hHit, hFiring, hOwn]⟩

theorem Indexed.accountsFor {s : QuerySet} (hs : s.Indexed) (document : String) {r : Reply}
    {before : Log} (hBefore : before.filter LogEntry.isOutcome = [])
    (hLog : r.log = before ++ [(s.decide document).2.1])
    (hDecisions : r.decisions = [(s.decide document).2.2]) :
    r.AccountsFor true s (s.evaluate document) := by
  rcases hs.decide_cases document with ⟨hNone, hDecide⟩ | ⟨h, q, hSome, hQuery, hDecide⟩
  · refine ⟨fun h hHit => ?_, fun _ => ⟨?_, ?_⟩⟩
    · rw [hNone] at hHit
      cases hHit
    · rw [hDecisions, hDecide]
      rfl
    · rw [hLog, List.filter_append, hBefore, hDecide]
      rfl
  · refine ⟨fun h' hHit => ?_, fun hHit => ?_⟩
    · obtain rfl := Option.some.inj (hSome.symm.trans hHit)
      refine ⟨q, hQuery, ?_, ?_⟩
      · rw [hDecisions, hDecide]
        rfl
      · rw [hLog, List.filter_append, hBefore, hDecide]
        rfl
    · rw [hSome] at hHit
      cases hHit

theorem outcomes_build (codes : List Code) : (build codes).2.filter LogEntry.isOutcome = [] := by
  induction codes with
  | nil => rfl
  | cons c cs ih =>
    rw [build]
    split
    · rfl
    · exact ih

theorem outcomes_compile (wanted : List Code) :
    (compile wanted).2.filter LogEntry.isOutcome = [] := by
  have hBuild := outcomes_build (compileOrder wanted)
  rw [compile]
  split
  · next f log h =>
    rw [h] at hBuild
    exact hBuild
  · next qs log h =>
    rw [h] at hBuild
    rw [List.filter_append, hBuild]
    rfl

end QuerySet

theorem Screening.outcomes_setUp (s : Screening) :
    s.setUp.2.2.filter LogEntry.isOutcome = [] := by
  have hCompile := QuerySet.outcomes_compile s.wanted
  rw [setUp]
  split
  · next qs log h =>
    rw [h] at hCompile
    rw [List.filter_append, hCompile]
    rfl
  · next f log h =>
    rw [h] at hCompile
    rw [List.filter_append, hCompile]
    rfl

namespace Office

/-- An office with an examiner for each set of queries and a screening for each list of codes. -/
def furnished (sets : List QuerySet) (wanted : List (List Code)) : Office :=
  ⟨sets.map .ofQueries, wanted.map .ofWanted, false⟩

/-- Whether decisions are recorded after a run, by the last command on it. -/
def recordingAfter (before : Bool) (cs : List Command) : Bool :=
  cs.foldl (fun recording c =>
    match c with
    | .startRecording => true
    | .stopRecording => false
    | _ => recording) before

def examinerAt? (o : Office) : Command → Option Examiner
  | .examiner slot _ => o.examiners[slot]?
  | .screening slot _ => o.screenings[slot]?.bind Screening.examiner
  | _ => none

/-- All sets of queries lead back from hits to queries. -/
structure Resolving (o : Office) : Prop where
  examiners : ∀ e ∈ o.examiners, e.queries.Indexed
  screenings : ∀ s ∈ o.screenings, ∀ qs, s.queries? = some qs → qs.Indexed

theorem resolving_furnished {sets : List QuerySet} (hSets : ∀ s ∈ sets, s.Reachable)
    (wanted : List (List Code)) : (furnished sets wanted).Resolving where
  examiners e he := by
    obtain ⟨s, hs, rfl⟩ := List.mem_map.mp he
    exact (hSets s hs).indexed
  screenings s hs qs hQueries := by
    obtain ⟨codes, _, rfl⟩ := List.mem_map.mp hs
    cases hQueries

theorem isRefusal_step_examiner {o : Office} {slot : Nat} (hLt : slot < o.examiners.length)
    (c : ExaminerCommand) : (o.step (.examiner slot c)).2.answer.isRefusal = false := by
  rw [step_examiner_of_some (List.getElem?_eq_getElem hLt), answer_observed]
  cases c <;> rfl

theorem mem_examiners_step {o : Office} {c : Command} {e' : Examiner}
    (h : e' ∈ (o.step c).1.examiners) : ∃ e ∈ o.examiners, e'.queries = e.queries := by
  cases c with
  | startRecording => exact ⟨e', h, rfl⟩
  | stopRecording => exact ⟨e', h, rfl⟩
  | screening slot c =>
    cases hSlot : o.screenings[slot]? with
    | none =>
      rw [(step_screening_of_none hSlot c).1] at h
      exact ⟨e', h, rfl⟩
    | some s =>
      rw [(step_screening_of_some hSlot c).1] at h
      cases c <;> exact ⟨e', h, rfl⟩
  | examiner slot c =>
    cases hSlot : o.examiners[slot]? with
    | none =>
      rw [step_examiner_of_none hSlot c] at h
      exact ⟨e', h, rfl⟩
    | some e =>
      rw [step_examiner_of_some hSlot c] at h
      have he : e ∈ o.examiners := List.mem_of_getElem? hSlot
      have hSet {e'' : Examiner} (hMem : e' ∈ o.examiners.set slot e'')
          (hQueries : e''.queries = e.queries) : ∃ e ∈ o.examiners, e'.queries = e.queries := by
        rcases List.mem_or_eq_of_mem_set hMem with hOld | rfl
        · exact ⟨e', hOld, rfl⟩
        · exact ⟨e, he, hQueries⟩
      have hNew {e'' : Examiner} (hMem : e' ∈ o.examiners ++ [e''])
          (hQueries : e''.queries = e.queries) : ∃ e ∈ o.examiners, e'.queries = e.queries := by
        rcases List.mem_append.mp hMem with hOld | hLast
        · exact ⟨e', hOld, rfl⟩
        · obtain rfl := List.mem_singleton.mp hLast
          exact ⟨e, he, hQueries⟩
      cases c with
      | decide document => exact hSet h rfl
      | decideFree document => exact ⟨e', h, rfl⟩
      | reset => exact hSet h rfl
      | look => exact ⟨e', h, rfl⟩
      | fork => exact hNew h rfl
      | clone => exact hNew h rfl

theorem mem_screenings_step {o : Office} {c : Command} {s' : Screening}
    (h : s' ∈ (o.step c).1.screenings) :
    s' ∈ o.screenings ∨ ∃ s ∈ o.screenings, ∃ e, s' = s.after e := by
  rcases o.screenings_step_cases c with hSame | ⟨slot, s, e, hs, _, hSet⟩ | ⟨s, hs, new, hNew, hCat⟩
  · rw [hSame] at h
    exact .inl h
  · rw [hSet] at h
    exact (List.mem_or_eq_of_mem_set h).imp_right fun hEq => ⟨s, hs, e, hEq⟩
  · rw [hCat, List.mem_append, List.mem_singleton] at h
    rcases h with hOld | rfl
    · exact .inl hOld
    · rcases hNew with rfl | rfl
      · exact .inl hs
      · exact .inr ⟨s, hs, .forked, rfl⟩

theorem Resolving.step {o : Office} (ho : o.Resolving) (c : Command) : (o.step c).1.Resolving where
  examiners e he := by
    obtain ⟨e', he', hQueries⟩ := mem_examiners_step he
    rw [hQueries]
    exact ho.examiners e' he'
  screenings s hs qs hQueries := by
    rcases mem_screenings_step hs with hOld | ⟨t, ht, e, rfl⟩
    · exact ho.screenings s hOld qs hQueries
    · rw [Screening.queries?_after] at hQueries
      cases e with
      | setUp succeeded =>
        cases hCompile : (QuerySet.compile t.wanted).1 with
        | ok qs' =>
          rw [hCompile] at hQueries
          obtain rfl := Option.some.inj hQueries
          exact (QuerySet.Reachable.compile hCompile).indexed
        | error f =>
          rw [hCompile] at hQueries
          cases hQueries
      | bound document kind => exact ho.screenings t ht qs hQueries
      | decided isMatch => exact ho.screenings t ht qs hQueries
      | forked => exact ho.screenings t ht qs hQueries

theorem Resolving.run {o : Office} (ho : o.Resolving) (cs : List Command) :
    (o.run cs).1.Resolving := by
  induction cs generalizing o with
  | nil => exact ho
  | cons c cs ih => exact ih (ho.step c)

theorem recording_step (o : Office) (c : Command) :
    (o.step c).1.recording = recordingAfter o.recording [c] := by
  cases c with
  | startRecording => rfl
  | stopRecording => rfl
  | examiner slot c =>
    cases hSlot : o.examiners[slot]? with
    | none =>
      rw [step_examiner_of_none hSlot]
      rfl
    | some e =>
      rw [step_examiner_of_some hSlot]
      cases c <;> rfl
  | screening slot c =>
    cases hSlot : o.screenings[slot]? with
    | none =>
      rw [(step_screening_of_none hSlot c).1]
      rfl
    | some s =>
      rw [(step_screening_of_some hSlot c).1]
      cases c <;> rfl

theorem recording_run (o : Office) (cs : List Command) :
    (o.run cs).1.recording = recordingAfter o.recording cs := by
  induction cs generalizing o with
  | nil => rfl
  | cons c cs ih =>
    rw [run_cons, ih, recording_step]
    rfl

theorem accountsFor_observed {o : Office} {r : Office × Reply} {s : QuerySet} {hit : Option Hit}
    (h : r.2.AccountsFor true s hit) :
    (step.observed o r).2.AccountsFor o.recording s hit where
  matched := by
    intro h' hHit
    obtain ⟨q, hQuery, hDecisions, hLog⟩ := h.matched h' hHit
    exact ⟨q, hQuery, by rw [decisions_observed, hDecisions]; rfl, by rw [log_observed, hLog]⟩
  unmatched := by
    intro hNone
    obtain ⟨hDecisions, hLog⟩ := h.unmatched hNone
    exact ⟨by rw [decisions_observed, hDecisions]; rfl, by rw [log_observed, hLog]⟩

/-- What the reply to a command accounts for, told from the offices before and after it. -/
structure Accounted (o : Office) (c : Command) (after : Office) (recording : Bool) (r : Reply) :
    Prop where
  decided : c.decides r.answer = true → ∃ e hit, o.examinerAt? c = some e ∧
    r.answer.Gives (after.examinerAt? c) hit ∧ r.AccountsFor recording e.queries hit
  idle : c.decides r.answer = false → r.Idle

theorem Accounted.observed {o : Office} {c : Command} {r : Office × Reply}
    (h : o.Accounted c r.1 true r.2) :
    o.Accounted c (step.observed o r).1 o.recording (step.observed o r).2 where
  decided := by
    rw [answer_observed]
    intro hDecides
    obtain ⟨e, hit, hExaminer, hGives, hAccounts⟩ := h.decided hDecides
    exact ⟨e, hit, hExaminer, hGives, accountsFor_observed hAccounts⟩
  idle := by
    rw [answer_observed]
    intro hDecides
    obtain ⟨hDecisions, hOutcomes⟩ := h.idle hDecides
    exact ⟨by rw [decisions_observed, hDecisions, ite_self], by rw [log_observed, hOutcomes]⟩

theorem Accounted.of_decided {o after : Office} {c : Command} {r : Reply} {e : Examiner}
    (document : String) (before : Log) (hQueries : e.queries.Indexed)
    (hDecides : c.decides r.answer = true) (hExaminer : o.examinerAt? c = some e)
    (hGives : r.answer.Gives (after.examinerAt? c) (e.queries.evaluate document))
    (hBefore : before.filter LogEntry.isOutcome = [])
    (hLog : r.log = before ++ [(e.queries.decide document).2.1])
    (hDecisions : r.decisions = [(e.queries.decide document).2.2]) :
    o.Accounted c after true r where
  decided _ := ⟨e, e.queries.evaluate document, hExaminer, hGives,
    hQueries.accountsFor document hBefore hLog hDecisions⟩
  idle hIdle := by
    rw [hDecides] at hIdle
    cases hIdle

theorem Accounted.of_idle {o after : Office} {c : Command} {recording : Bool} {r : Reply}
    (hDecides : c.decides r.answer = false) (hDecisions : r.decisions = [])
    (hOutcomes : r.log.filter LogEntry.isOutcome = []) : o.Accounted c after recording r where
  decided hDecided := by
    rw [hDecides] at hDecided
    cases hDecided
  idle _ := ⟨hDecisions, hOutcomes⟩

theorem accounted_examinerStep {o : Office} {slot : Nat} {e : Examiner}
    (hSlot : o.examiners[slot]? = some e) (hQueries : e.queries.Indexed) (c : ExaminerCommand) :
    o.Accounted (.examiner slot c) (o.examinerStep slot e c).1 true
      (o.examinerStep slot e c).2 := by
  cases c with
  | decide document =>
    have hLt := (List.getElem?_eq_some_iff.mp hSlot).1
    refine .of_decided document [] hQueries rfl hSlot ?_ rfl rfl rfl
    rw [← QuerySet.fst_decide]
    exact .inr ⟨rfl, _, List.getElem?_set_self hLt, rfl⟩
  | decideFree document =>
    refine .of_decided document [] hQueries rfl hSlot ?_ rfl rfl rfl
    rw [← QuerySet.fst_decide]
    exact .inl ⟨_, rfl⟩
  | reset => exact .of_idle rfl rfl rfl
  | look => exact .of_idle rfl rfl rfl
  | fork => exact .of_idle rfl rfl rfl
  | clone => exact .of_idle rfl rfl rfl

theorem accounted_screeningStep {o : Office} {slot : Nat} {s : Screening}
    (hSlot : o.screenings[slot]? = some s) (hQueries : ∀ qs, s.queries? = some qs → qs.Indexed)
    (c : ScreeningCommand) :
    o.Accounted (.screening slot c) (o.screeningStep slot s c).1 true
      (o.screeningStep slot s c).2 := by
  have hAt {e : Examiner} (hExaminer : s.examiner = some e) :
      o.examinerAt? (.screening slot c) = some e ∧ e.queries.Indexed := by
    refine ⟨?_, hQueries e.queries (by rw [Screening.queries?, hExaminer, Option.map_some])⟩
    rw [examinerAt?, hSlot, Option.bind_some, hExaminer]
  cases c with
  | setUp =>
    refine .of_idle ?_ rfl s.outcomes_setUp
    simp only [screeningStep]
    cases s.setUp.2.1 <;> rfl
  | bind document kind => exact .of_idle rfl rfl rfl
  | decideBound =>
    rcases s.decideBound_stages with ⟨_, h⟩ | ⟨_, h⟩ | ⟨e, b, _, hExaminer, _, h⟩
    · simp only [screeningStep, h]
      exact .of_idle rfl rfl rfl
    · simp only [screeningStep, h]
      exact .of_idle rfl rfl rfl
    · obtain ⟨hExaminerAt, hIndexed⟩ := hAt hExaminer
      have hLt := (List.getElem?_eq_some_iff.mp hSlot).1
      simp only [screeningStep, h]
      refine .of_decided b.document [.boundDecision b.kind] hIndexed rfl hExaminerAt
        (.inr ⟨rfl, ?_⟩) rfl rfl rfl
      simp [examinerAt?, hLt]
  | decideFree document kind =>
    rcases s.decideFree_stages document kind with ⟨_, h⟩ | ⟨e, _, hExaminer, h⟩
    · simp only [screeningStep, h]
      exact .of_idle rfl rfl rfl
    · obtain ⟨hExaminerAt, hIndexed⟩ := hAt hExaminer
      simp only [screeningStep, h]
      exact .of_decided document [.freeDecision kind] hIndexed rfl hExaminerAt (.inl ⟨_, rfl⟩)
        rfl rfl rfl
  | explain => exact .of_idle rfl rfl rfl
  | lastFiring => exact .of_idle rfl rfl rfl
  | queries => exact .of_idle rfl rfl rfl
  | wanted => exact .of_idle rfl rfl rfl
  | fork => exact .of_idle rfl rfl rfl
  | clone => exact .of_idle rfl rfl rfl

theorem Resolving.accounted {o : Office} (ho : o.Resolving) (c : Command) :
    o.Accounted c (o.step c).1 o.recording (o.step c).2 := by
  cases c with
  | startRecording => exact .of_idle rfl rfl rfl
  | stopRecording => exact .of_idle rfl rfl rfl
  | examiner slot c =>
    cases hSlot : o.examiners[slot]? with
    | none =>
      rw [step_examiner_of_none hSlot c]
      cases c <;> exact .of_idle rfl rfl rfl
    | some e =>
      rw [step_examiner_of_some hSlot c]
      -- The step is accounted for as if decisions were recorded; observing leaves them out if not.
      exact (accounted_examinerStep hSlot (ho.examiners e (List.mem_of_getElem? hSlot)) c).observed
  | screening slot c =>
    cases hSlot : o.screenings[slot]? with
    | none =>
      rw [step_screening_eq_noSlot hSlot c]
      cases c <;> exact .of_idle rfl rfl rfl
    | some s =>
      rw [step_screening_eq_observed hSlot c]
      exact (accounted_screeningStep hSlot
        (ho.screenings s (List.mem_of_getElem? hSlot)) c).observed

/-- After any run in an office of any examiners and screenings, a command that decides is answered
with one record, if decisions are recorded then, and one entry on the outcome. They name the number
of the queries, and the query and the value of the result. Any other command and any refusal leaves
no record and no such entry. An examiner that is there refuses nothing. -/
theorem decisions_accounted {sets : List QuerySet} (hSets : ∀ s ∈ sets, s.Reachable)
    (wanted : List (List Code)) (cs : List Command) (c : Command) :
    let o := ((furnished sets wanted).run cs).1
    let r := (o.step c).2
    (c.decides r.answer = true → ∃ e hit, o.examinerAt? c = some e ∧
      r.answer.Gives ((o.step c).1.examinerAt? c) hit ∧
      r.AccountsFor (recordingAfter false cs) e.queries hit) ∧
    (c.decides r.answer = false → r.Idle) ∧
    ∀ slot command, c = .examiner slot command → slot < o.examiners.length →
      r.answer.isRefusal = false := by
  intro o r
  have hResolving : o.Resolving := (resolving_furnished hSets wanted).run cs
  obtain ⟨hDecided, hIdle⟩ := hResolving.accounted c
  have hRecording : o.recording = recordingAfter false cs :=
    recording_run (furnished sets wanted) cs
  rw [hRecording] at hDecided
  refine ⟨hDecided, hIdle, ?_⟩
  rintro slot command rfl hLt
  exact isRefusal_step_examiner hLt command

/-- A free decision of a fork is recorded. The same decision after the recording has ended is not,
and a set-up never is. -/
theorem decisions_accounted_fork :
    let s := QuerySet.ofQueries [.ofSound (.uspc "8"), .ofSound (.uspc "705")]
    let free : Command :=
      .examiner 1 (.decideFree "<PATDOC><SDOBI><B500><B520><B522><PDAT>7051")
    let hit : Hit := ⟨1, 1, .secondary, "7051"⟩
    let after (cs : List Command) := ((furnished [s] [[.uspc "9"]]).run cs).1
    let forked : List Command := [.startRecording, .examiner 0 .fork]
    s.Reachable ∧
      ((after forked).step free).2.AccountsFor true s (some hit) ∧
      ((after (forked ++ [.stopRecording])).step free).2.AccountsFor false s (some hit) ∧
      ((after forked).step (.screening 0 .setUp)).2.Idle := by
  intro s free hit after forked
  have hCompile : (QuerySet.compile [.uspc "8", .uspc "705"]).1 = .ok s := by decide +kernel
  have hReachable : s.Reachable := .compile hCompile
  have hSets : ∀ t ∈ [s], t.Reachable := List.forall_mem_singleton.mpr hReachable
  have hFree (cs : List Command) {f : Option Firing}
      (hAt : (after cs).examinerAt? free = some ⟨s, none⟩)
      (hAnswer : ((after cs).step free).2.answer = .result (some hit) f) :
      ((after cs).step free).2.AccountsFor (recordingAfter false cs) s (some hit) := by
    obtain ⟨e, hit', hExaminer, hGives, hAccounts⟩ :=
      (decisions_accounted hSets [[.uspc "9"]] cs free).1 (by rw [hAnswer]; rfl)
    obtain rfl := Option.some.inj (hAt.symm.trans hExaminer)
    rcases hGives with ⟨f', hResult⟩ | ⟨hVerdict, _⟩
    · obtain ⟨rfl, _⟩ := Answer.result.inj (hAnswer.symm.trans hResult)
      exact hAccounts
    · cases hAnswer.symm.trans hVerdict
  refine ⟨hReachable, ?_, ?_, ?_⟩
  · exact hFree forked (f := s.firing? hit) (by decide +kernel) (by decide +kernel)
  · exact hFree (forked ++ [.stopRecording]) (f := s.firing? hit) (by decide +kernel)
      (by decide +kernel)
  · exact (decisions_accounted hSets [[.uspc "9"]] forked (.screening 0 .setUp)).2.1
      (by decide +kernel)

end Office

end PatentFilter

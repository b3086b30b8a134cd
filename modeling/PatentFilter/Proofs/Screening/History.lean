import Mathlib.Data.List.Induction
import PatentFilter.Proofs.QuerySet.FirstFit
import PatentFilter.Proofs.Screening.Stages

/-!
# Histories of screenings

The state of a screening is the replay of its history: set-ups, bindings, decisions, and a fork
where it was forked off. One invariant holds after every history: the queries are those of the
wanted codes, and what is remembered is nothing or the result for the bound document. The queries
are there if and only if a set-up of the history succeeded.
-/

namespace PatentFilter

/-- What happened to a screening. -/
inductive Event where
  | setUp (succeeded : Bool)
  | bound (document : String) (kind : DocumentKind)
  | decided (isMatch : Bool)
  | forked
  deriving DecidableEq, Repr

/-- The events of a screening and of what it was cloned or forked from, the oldest first. -/
abbrev History := List Event

/-- The document most recently bound. A fork starts with none. -/
def History.boundDocument (h : History) : Option String :=
  h.foldl (fun document e =>
    match e with
    | .bound d _ => some d
    | .forked => none
    | _ => document) none

/-- Each set-up of the history ended as compiling the wanted codes ends. -/
def History.Truthful (wanted : List Code) (h : History) : Prop :=
  ∀ succeeded, .setUp succeeded ∈ h → succeeded = (QuerySet.compile wanted).1.isOk

namespace Screening

def after (s : Screening) : Event → Screening
  | .setUp _ => s.setUp.1
  | .bound document kind => (s.bind document kind).1
  | .decided _ => s.decideBound.1
  | .forked => s.fork

def replay (wanted : List Code) (h : History) : Screening :=
  h.foldl after (ofWanted wanted)

theorem replay_concat (wanted : List Code) (h : History) (e : Event) :
    replay wanted (h ++ [e]) = (replay wanted h).after e := by
  simp [replay]

/-- The queries are those of the wanted codes, and nothing is remembered that was not decided for
the bound document. -/
structure Sound (s : Screening) : Prop where
  queries : ∀ e, s.examiner = some e → (QuerySet.compile s.wanted).1 = .ok e.queries
  last : ∀ e, s.examiner = some e →
    e.last = none ∨ ∃ b, s.binding = some b ∧ e.last = e.queries.evaluate b.document

def Quiet (s : Screening) : Prop :=
  ∀ e, s.examiner = some e → e.last = none

theorem setUp_cases (s : Screening) :
    (∃ qs, (QuerySet.compile s.wanted).1 = .ok qs ∧ s.setUp.2.1 = .ok () ∧
      s.setUp.1 = { s with examiner := some (.ofQueries qs) }) ∨
    ∃ f, (QuerySet.compile s.wanted).1 = .error f ∧ s.setUp.2.1 = .error (.badCode f) ∧
      s.setUp.1 = { s with examiner := none } := by
  unfold setUp
  split
  · next qs log h => exact .inl ⟨qs, by rw [h], rfl, rfl⟩
  · next f log h => exact .inr ⟨f, by rw [h], rfl, rfl⟩

/-- What a decision on the bound document does: nothing at all without an examiner or a binding. -/
theorem decideBound_cases (s : Screening) :
    (∃ f, s.decideBound.2.1 = .error f ∧ s.decideBound.1 = s) ∨
    ∃ e b, s.examiner = some e ∧ s.binding = some b ∧
      s.decideBound.2.1 = .ok (e.queries.evaluate b.document).isSome ∧
      s.decideBound.1 =
        { s with examiner := some { e with last := e.queries.evaluate b.document } } := by
  rcases s.decideBound_stages with ⟨_, h⟩ | ⟨_, h⟩ | ⟨e, b, _, he, hb, h⟩
  · exact .inl ⟨_, by rw [h], by rw [h]⟩
  · exact .inl ⟨_, by rw [h], by rw [h]⟩
  · exact .inr ⟨e, b, he, hb, by rw [h], by rw [h]⟩

theorem frame_setUp (s : Screening) :
    s.setUp.1.wanted = s.wanted ∧ s.setUp.1.binding = s.binding := by
  rcases s.setUp_cases with ⟨_, _, _, h⟩ | ⟨_, _, _, h⟩ <;> simp [h]

theorem frame_decideBound (s : Screening) :
    s.decideBound.1.wanted = s.wanted ∧ s.decideBound.1.binding = s.binding := by
  rcases s.decideBound_cases with ⟨_, _, h⟩ | ⟨_, _, _, _, _, h⟩ <;> simp [h]

@[simp] theorem wanted_after (s : Screening) (e : Event) : (s.after e).wanted = s.wanted := by
  cases e with
  | setUp succeeded => exact s.frame_setUp.1
  | bound document kind => rfl
  | decided isMatch => exact s.frame_decideBound.1
  | forked => rfl

theorem binding_after (s : Screening) (e : Event) :
    (s.after e).binding =
      match e with
      | .bound document kind => some ⟨document, kind⟩
      | .forked => none
      | _ => s.binding := by
  cases e with
  | setUp succeeded => exact s.frame_setUp.2
  | bound document kind => rfl
  | decided isMatch => exact s.frame_decideBound.2
  | forked => rfl

theorem queries?_after (s : Screening) (e : Event) :
    (s.after e).queries? =
      match e with
      | .setUp _ => (QuerySet.compile s.wanted).1.toOption
      | _ => s.queries? := by
  cases e with
  | setUp succeeded =>
    rcases s.setUp_cases with ⟨qs, hCompile, _, h⟩ | ⟨f, hCompile, _, h⟩ <;>
      simp [after, h, hCompile, queries?, Except.toOption, Examiner.ofQueries]
  | bound document kind => exact queries?_bind document kind s
  | decided isMatch => exact s.queries?_decideBound
  | forked =>
    simp [after, fork, queries?, Option.map_map, Function.comp_def, Examiner.fork,
      Examiner.ofQueries]

theorem quiet_setUp (s : Screening) : s.setUp.1.Quiet := by
  intro e he
  rcases s.setUp_cases with ⟨qs, _, _, h⟩ | ⟨f, _, _, h⟩
  · rw [h] at he
    rw [← Option.some.inj he]
    rfl
  · rw [h] at he
    cases he

theorem quiet_bind (document : String) (kind : DocumentKind) (s : Screening) :
    (s.bind document kind).1.Quiet := by
  intro e he
  obtain ⟨e', _, rfl⟩ := Option.map_eq_some_iff.mp he
  rfl

theorem quiet_fork (s : Screening) : s.fork.Quiet := by
  intro e he
  obtain ⟨e', _, rfl⟩ := Option.map_eq_some_iff.mp he
  rfl

theorem Sound.setUp {s : Screening} : s.setUp.1.Sound where
  queries e he := by
    rcases s.setUp_cases with ⟨qs, hQueries, _, h⟩ | ⟨f, _, _, h⟩
    · rw [h] at he ⊢
      rw [← Option.some.inj he]
      exact hQueries
    · rw [h] at he
      cases he
  last e he := .inl (s.quiet_setUp e he)

theorem Sound.after {s : Screening} (hs : s.Sound) (event : Event) : (s.after event).Sound := by
  cases event with
  | setUp succeeded => exact Sound.setUp
  | bound document kind =>
    refine ⟨fun e he => ?_, fun e he => .inl (quiet_bind document kind s e he)⟩
    obtain ⟨e', he', rfl⟩ := Option.map_eq_some_iff.mp he
    exact hs.queries e' he'
  | decided isMatch =>
    rcases s.decideBound_cases with ⟨_, _, h⟩ | ⟨e, b, he, hb, _, h⟩
    · rw [Screening.after, h]
      exact hs
    · rw [Screening.after, h]
      refine ⟨fun e' he' => ?_, fun e' he' => .inr ⟨b, hb, ?_⟩⟩
      · rw [← Option.some.inj he']
        exact hs.queries e he
      · rw [← Option.some.inj he']
  | forked =>
    refine ⟨fun e he => ?_, fun e he => .inl (s.quiet_fork e he)⟩
    obtain ⟨e', he', rfl⟩ := Option.map_eq_some_iff.mp he
    exact hs.queries e' he'

theorem sound_ofWanted (wanted : List Code) : (ofWanted wanted).Sound where
  queries e he := by cases he
  last e he := by cases he

theorem sound_replay (wanted : List Code) (h : History) : (replay wanted h).Sound := by
  induction h using List.reverseRecOn with
  | nil => exact sound_ofWanted wanted
  | append_singleton h e ih =>
    rw [replay_concat]
    exact ih.after e

@[simp] theorem wanted_replay (wanted : List Code) (h : History) :
    (replay wanted h).wanted = wanted := by
  induction h using List.reverseRecOn with
  | nil => rfl
  | append_singleton h e ih => rw [replay_concat, wanted_after, ih]

theorem document_binding_replay (wanted : List Code) (h : History) :
    (replay wanted h).binding.map Binding.document = h.boundDocument := by
  induction h using List.reverseRecOn with
  | nil => rfl
  | append_singleton h e ih =>
    rw [replay_concat, binding_after, History.boundDocument, List.foldl_append, List.foldl_cons,
      List.foldl_nil, ← History.boundDocument]
    cases e with
    | setUp succeeded => exact ih
    | bound document kind => rfl
    | decided isMatch => exact ih
    | forked => rfl

/-- The queries are there once a set-up has succeeded, and from then on. -/
theorem queries?_replay {wanted : List Code} {h : History} (hTruthful : h.Truthful wanted) :
    (replay wanted h).queries? =
      if .setUp true ∈ h then (QuerySet.compile wanted).1.toOption else none := by
  induction h using List.reverseRecOn with
  | nil => rfl
  | append_singleton h e ih =>
    have hBefore : History.Truthful wanted h := fun b hb => hTruthful b (List.mem_append_left _ hb)
    rw [replay_concat, queries?_after, wanted_replay]
    cases e with
    | setUp succeeded =>
      obtain rfl := hTruthful succeeded (List.mem_append_right _ List.mem_cons_self)
      cases hCompile : (QuerySet.compile wanted).1 with
      | ok qs => simp [Except.isOk, Except.toBool]
      | error f => simp [Except.toOption]
    | bound document kind => simpa using ih hBefore
    | decided isMatch => simpa using ih hBefore
    | forked => simpa using ih hBefore

theorem quiet_after (s : Screening) {e : Event} (he : ∀ b, e ≠ .decided b) : (s.after e).Quiet := by
  cases e with
  | setUp succeeded => exact s.quiet_setUp
  | bound document kind => exact quiet_bind document kind s
  | decided isMatch => exact absurd rfl (he isMatch)
  | forked => exact s.quiet_fork

theorem Quiet.explain {s : Screening} (hs : s.Quiet) : s.explain = .noMatch := by
  rw [Screening.explain, lastFiring?]
  cases he : s.examiner with
  | none => rfl
  | some e =>
    rw [Option.bind_some, Examiner.lastFiring?, hs e he]
    rfl

/-- From a binding on, nothing is remembered until something is decided. -/
theorem quiet_replay_of_bound (wanted : List Code) (earlier later : History) (document : String)
    (kind : DocumentKind) (h : ∀ b, .decided b ∉ later) :
    (replay wanted (earlier ++ .bound document kind :: later)).Quiet := by
  rcases List.eq_nil_or_concat later with rfl | ⟨later, e, rfl⟩
  · rw [replay_concat]
    exact quiet_after _ fun b hb => by cases hb
  · rw [List.concat_eq_append, ← List.cons_append, ← List.append_assoc, replay_concat]
    refine quiet_after _ fun b he => h b ?_
    rw [List.concat_eq_append, he]
    exact List.mem_append_right _ List.mem_cons_self

theorem Sound.isSome_lastFiring? {s : Screening} (hs : s.Sound) {e : Examiner}
    (he : s.examiner = some e) : e.lastFiring?.isSome = e.last.isSome := by
  have hIndexed : e.queries.Indexed := (QuerySet.Reachable.compile (hs.queries e he)).indexed
  rw [Examiner.lastFiring?]
  rcases hs.last e he with hNone | ⟨b, _, hLast⟩
  · rw [hNone]
    rfl
  · rw [hLast]
    cases hHit : e.queries.evaluate b.document with
    | none => rfl
    | some h =>
      obtain ⟨f, hFiring, _⟩ := hIndexed.exists_firing hHit
      rw [Option.bind_some, hFiring]
      rfl

/-- A verdict is the verdict of the wanted codes on the bound document, and it is explained. -/
theorem Sound.verdict {s : Screening} (hs : s.Sound) {isMatch : Bool}
    (h : s.decideBound.2.1 = .ok isMatch) :
    (∃ document qs, s.binding.map Binding.document = some document ∧
      (QuerySet.compile s.wanted).1 = .ok qs ∧ isMatch = (qs.evaluate document).isSome) ∧
    s.decideBound.1.explain.isMatch = isMatch := by
  have hAfter : s.decideBound.1.Sound := hs.after (.decided isMatch)
  rcases s.decideBound_cases with ⟨f, hError, _⟩ | ⟨e, b, he, hb, hOk, hState⟩
  · rw [hError] at h
    cases h
  · obtain rfl := Except.ok.inj (hOk.symm.trans h)
    refine ⟨⟨b.document, e.queries, by rw [hb]; rfl, hs.queries e he, rfl⟩, ?_⟩
    have hExaminer : s.decideBound.1.examiner =
        some { e with last := e.queries.evaluate b.document } := by rw [hState]
    rw [Screening.explain, Explanation.isMatch_ofFiring, lastFiring?, hExaminer, Option.bind_some,
      hAfter.isSome_lastFiring? hExaminer]

end Screening

end PatentFilter

import PatentFilter.Screening.Basic

/-!
# Stages of a screening

In each stage it is settled whether a screening decides or refuses. A refusal changes nothing and is
not logged, and no decision changes which queries are asked or what is bound.
-/

namespace PatentFilter.Screening

theorem stage_eq_ready_iff {s : Screening} :
    s.stage = .ready ↔ s.examiner ≠ none ∧ s.binding = none := by
  unfold stage
  split <;> simp_all

/-- The three ways in which a decision on the bound document ends, one for each stage. -/
theorem decideBound_stages (s : Screening) :
    (s.stage = .uninitialized ∧ s.decideBound = (s, .error .notSetUp, [], [])) ∨
    (s.stage = .ready ∧ s.decideBound = (s, .error .nothingBound, [], [])) ∨
    ∃ e b, s.stage = .bound ∧ s.examiner = some e ∧ s.binding = some b ∧
      s.decideBound =
        ({ s with examiner := some { e with last := e.queries.evaluate b.document } },
          .ok (e.queries.evaluate b.document).isSome,
          [.boundDecision b.kind, (e.queries.decide b.document).2.1],
          [(e.queries.decide b.document).2.2]) := by
  cases hExaminer : s.examiner with
  | none => exact .inl ⟨by simp [stage, hExaminer], by simp [decideBound, hExaminer]⟩
  | some e =>
    cases hBinding : s.binding with
    | none =>
      refine .inr (.inl ⟨by simp [stage, hExaminer, hBinding], ?_⟩)
      simp [decideBound, hExaminer, hBinding]
    | some b =>
      refine .inr (.inr ⟨e, b, by simp [stage, hExaminer, hBinding], rfl, rfl, ?_⟩)
      simp [decideBound, hExaminer, hBinding]

theorem decideFree_stages (s : Screening) (document : String) (kind : DocumentKind) :
    (s.stage = .uninitialized ∧ s.decideFree document kind = (.error .notSetUp, [], [])) ∨
    ∃ e, s.stage ≠ .uninitialized ∧ s.examiner = some e ∧
      s.decideFree document kind =
        (.ok (e.queries.evaluate document),
          [.freeDecision kind, (e.queries.decide document).2.1],
          [(e.queries.decide document).2.2]) := by
  cases hExaminer : s.examiner with
  | none => exact .inl ⟨stage_eq_uninitialized_iff.mpr hExaminer, by simp [decideFree, hExaminer]⟩
  | some e =>
    refine .inr ⟨e, ?_, rfl, by simp [decideFree, hExaminer]⟩
    rw [Ne, stage_eq_uninitialized_iff, hExaminer]
    exact Option.some_ne_none e

theorem decideBound_eq_error_iff {s : Screening} {f : ScreeningFault} :
    s.decideBound.2.1 = .error f ↔
      s.stage = .uninitialized ∧ f = .notSetUp ∨ s.stage = .ready ∧ f = .nothingBound := by
  rcases s.decideBound_stages with ⟨hStage, h⟩ | ⟨hStage, h⟩ | ⟨e, b, hStage, _, _, h⟩ <;>
    simp [h, hStage, eq_comm]

theorem exists_decideBound_eq_ok_iff {s : Screening} :
    (∃ isMatch, s.decideBound.2.1 = .ok isMatch) ↔ s.stage = .bound := by
  rcases s.decideBound_stages with ⟨hStage, h⟩ | ⟨hStage, h⟩ | ⟨e, b, hStage, _, _, h⟩ <;>
    simp [h, hStage]

theorem decideBound_of_error {s : Screening} {f : ScreeningFault}
    (hError : s.decideBound.2.1 = .error f) : s.decideBound.1 = s := by
  rcases s.decideBound_stages with ⟨_, h⟩ | ⟨_, h⟩ | ⟨e, b, _, _, _, h⟩
  · rw [h]
  · rw [h]
  · rw [h] at hError
    cases hError

theorem decideFree_eq_error_iff {s : Screening} {document : String} {kind : DocumentKind}
    {f : ScreeningFault} :
    (s.decideFree document kind).1 = .error f ↔ s.stage = .uninitialized ∧ f = .notSetUp := by
  rcases s.decideFree_stages document kind with ⟨hStage, h⟩ | ⟨e, hStage, _, h⟩ <;>
    simp [h, hStage, eq_comm]

@[simp] theorem queries?_bind (document : String) (kind : DocumentKind) (s : Screening) :
    (s.bind document kind).1.queries? = s.queries? := by
  simp [queries?, bind, Option.map_map, Function.comp_def, Examiner.reset]

@[simp] theorem queries?_decideBound (s : Screening) : s.decideBound.1.queries? = s.queries? := by
  rcases s.decideBound_stages with ⟨_, h⟩ | ⟨_, h⟩ | ⟨e, b, _, hExaminer, _, h⟩
  · rw [h]
  · rw [h]
  · simp [h, queries?, hExaminer]

/-- A binding makes two screenings with the same queries the same, whatever they remember. -/
theorem bind_congr {s t : Screening} (hWanted : s.wanted = t.wanted)
    (hQueries : s.queries? = t.queries?) (document : String) (kind : DocumentKind) :
    (s.bind document kind).1 = (t.bind document kind).1 := by
  have hReset (u : Screening) :
      u.examiner.map Examiner.reset = u.queries?.map Examiner.ofQueries := by
    rw [queries?, Option.map_map]
    rfl
  simp only [bind, hReset, hWanted, hQueries]

theorem decideBound_bind {s : Screening} {e : Examiner} (he : s.examiner = some e)
    (document : String) (kind : DocumentKind) :
    (s.bind document kind).1.decideBound =
      (⟨s.wanted, some ⟨e.queries, e.queries.evaluate document⟩, some ⟨document, kind⟩⟩,
        .ok (e.queries.evaluate document).isSome,
        [.boundDecision kind, (e.queries.decide document).2.1],
        [(e.queries.decide document).2.2]) := by
  simp [bind, decideBound, he, Examiner.reset]

end PatentFilter.Screening

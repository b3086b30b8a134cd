import PatentFilter.Proofs.Office.Histories
import PatentFilter.Proofs.QuerySet.Compiled

/-!
# Explanations are true

What a screening explains is true of its bound document and of its wanted codes: the code is a
wanted one, the value begins with its text and stands in the document where the expression looks,
and no code or place that is tried earlier has anything to show. Where the verdict is that nothing
matches, no wanted code has a value anywhere.
-/

namespace PatentFilter

namespace Screening

theorem Sound.exists_firing_of_explain {s : Screening} (hs : s.Sound) {code : Code}
    {location : Location} {expression value : String}
    (h : s.explain = .matched code location expression value) :
    ∃ document qs f, s.binding.map Binding.document = some document ∧
      (QuerySet.compile s.wanted).1 = .ok qs ∧ qs.evaluate document = some f.hit ∧
      qs.firing? f.hit = some f ∧ f.query.code = code ∧ f.hit.location = location ∧
      f.text = expression ∧ f.hit.value = value := by
  obtain ⟨f, hFiring⟩ : ∃ f, s.lastFiring? = some f := by
    rw [explain] at h
    cases hNone : s.lastFiring? with
    | none =>
      rw [hNone] at h
      cases h
    | some f => exact ⟨f, rfl⟩
  rw [explain, hFiring, Explanation.ofFiring, Explanation.matched.injEq] at h
  obtain ⟨hCode, hLocation, hExpression, hValue⟩ := h
  obtain ⟨e, hExaminer, hLast⟩ := Option.bind_eq_some_iff.mp hFiring
  obtain ⟨hit, hHit, hFires⟩ := Option.bind_eq_some_iff.mp hLast
  obtain rfl := (QuerySet.firing?_eq_some_iff.mp hFires).2.2
  rcases hs.last e hExaminer with hNone | ⟨b, hBinding, hDecided⟩
  · rw [hNone] at hHit
    cases hHit
  · rw [hHit] at hDecided
    exact ⟨b.document, e.queries, f, by rw [hBinding, Option.map_some], hs.queries e hExaminer,
      hDecided.symm, hFires, hCode, hLocation, hExpression, hValue⟩

end Screening

namespace Office

/-- In every slot, after any run. A matched explanation names a wanted code, the `i`-th in the order
of compiling, and the `j`-th place of its scheme, and it is the first code and the first place at
which the bound document has a value that begins with the code. A negative verdict means that no
wanted code is found at any place. -/
theorem explanation_true (wanted : List Code) (cs : List Command) (slot : Nat) (s : Screening)
    (hs : ((opening wanted).run cs).1.screenings[slot]? = some s) :
    (∀ code location expression value, s.explain = .matched code location expression value →
      ∃ (document : String) (place : Place) (q : Query) (i j : Nat),
        s.binding.map Binding.document = some document ∧
        code ∈ s.wanted ∧
        code.text.toList <+: value.toList ∧
        code.scheme.layout.places[j]? = some place ∧ place.location = location ∧
        value ∈ code.scheme.layout.valuesAt place document ∧
        Query.ofCode code = .ok q ∧ q.text = " | ".intercalate q.testTexts ∧
        q.testTexts[j]? = some expression ∧
        expression = (code.testAt place).expression code.scheme.layout.anchor ∧
        (QuerySet.compileOrder s.wanted)[i]? = some code ∧
        (∀ i' c, i' < i → (QuerySet.compileOrder s.wanted)[i']? = some c →
          ∀ p ∈ c.scheme.layout.places, ¬ c.FoundAt p document) ∧
        ∀ j' p, j' < j → code.scheme.layout.places[j']? = some p → ¬ code.FoundAt p document) ∧
    ∀ document, s.binding.map Binding.document = some document → s.decideBound.2.1 = .ok false →
      ∀ c ∈ s.wanted, ∀ p ∈ c.scheme.layout.places, ¬ c.FoundAt p document := by
  have hSound : s.Sound := sound_of_run hs
  refine ⟨fun code location expression value hExplain => ?_, fun document hBound hFalse => ?_⟩
  · obtain ⟨document, qs, f, hBound, hQueries, hHit, hFiring, rfl, rfl, rfl, rfl⟩ :=
      hSound.exists_firing_of_explain hExplain
    obtain ⟨c, p, hc, hp, hLocation, hValue, hStem, hCodes, hPlaces⟩ :=
      QuerySet.evaluate_eq_some_of_compile hQueries hHit
    obtain ⟨hBuilt, hQuery, hTest⟩ := QuerySet.firing_of_compile hQueries hFiring hc hp
    have hCode : f.query.code = c := by
      rw [hQuery]
      rfl
    have hExpression : f.text = (c.testAt p).expression c.scheme.layout.anchor := by
      rw [Firing.text, hTest, hQuery]
      rfl
    have hText : f.query.testTexts[f.hit.test]? = some f.text := by
      rw [Query.testTexts, List.getElem?_map, hQuery, Query.tests_ofSound, List.getElem?_map, hp,
        hExpression]
      rfl
    rw [hCode]
    have hWanted : c ∈ s.wanted := QuerySet.mem_compileOrder.mp (List.mem_of_getElem? hc)
    exact ⟨document, p, f.query, f.hit.query, f.hit.test, hBound, hWanted, hStem, hp, hLocation,
      hValue, hBuilt, rfl, hText, hExpression, hc, hCodes, hPlaces⟩
  · obtain ⟨⟨document', qs, hBound', hQueries, hIsMatch⟩, _⟩ := hSound.verdict hFalse
    obtain rfl := Option.some.inj (hBound.symm.trans hBound')
    exact (QuerySet.evaluate_eq_none_iff_of_compile hQueries).mp
      (Option.isNone_iff_eq_none.mp (Option.isSome_eq_false_iff.mp hIsMatch.symm))

/-- The second of two wanted codes is found in the citation data; a third code is found nowhere. -/
theorem explanation_true_citation :
    let document := "<PATDOC><SDOBI><B500><B520><B522><PDAT>7051"
    let asked := [.screening 0 .setUp, .screening 0 (.bind document .grant),
      .screening 0 .decideBound]
    let matching : Screening := ⟨[.uspc "8", .uspc "705"],
      some ⟨.ofQueries [.ofSound (.uspc "8"), .ofSound (.uspc "705")],
        some ⟨1, 1, .secondary, "7051"⟩⟩, some ⟨document, .grant⟩⟩
    let failing : Screening :=
      ⟨[.uspc "9"], some ⟨.ofQueries [.ofSound (.uspc "9")], none⟩, some ⟨document, .grant⟩⟩
    ((opening matching.wanted).run asked).1.screenings[0]? = some matching ∧
      matching.explain = .matched (.uspc "705") .secondary
        "/PATDOC/SDOBI/B500/B520/B522[starts-with(PDAT, '705')]" "7051" ∧
      (∃ place, place.location = .secondary ∧
        "7051" ∈ Scheme.uspc.layout.valuesAt place document) ∧
      ((opening failing.wanted).run asked).1.screenings[0]? = some failing ∧
      failing.decideBound.2.1 = .ok false ∧
      ∀ p ∈ Scheme.uspc.layout.places, ¬ (Code.uspc "9").FoundAt p document := by
  intro document asked matching failing
  have hMatching : ((opening matching.wanted).run asked).1.screenings[0]? = some matching := by
    decide +kernel
  have hExplain : matching.explain = .matched (.uspc "705") .secondary
      "/PATDOC/SDOBI/B500/B520/B522[starts-with(PDAT, '705')]" "7051" := by decide +kernel
  have hFailing : ((opening failing.wanted).run asked).1.screenings[0]? = some failing := by
    decide +kernel
  have hFalse : failing.decideBound.2.1 = .ok false := by decide +kernel
  obtain ⟨_, place, _, _, _, hBound, _, _, _, hLocation, hValue, _⟩ :=
    (explanation_true _ asked 0 matching hMatching).1 _ _ _ _ hExplain
  obtain rfl := Option.some.inj hBound
  refine ⟨hMatching, hExplain, ⟨place, hLocation, hValue⟩, hFailing, hFalse, ?_⟩
  exact (explanation_true _ asked 0 failing hFailing).2 document rfl hFalse _ List.mem_cons_self

end Office

end PatentFilter

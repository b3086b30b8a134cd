import PatentFilter.Proofs.QuerySet.FirstFit

/-!
# What a compiled set finds

A set compiled from wanted codes is read in terms of the codes: which of them begin a value at one
of the places of their scheme. A hit names the first such code and the first such place.
-/

namespace PatentFilter

/-- The values that a document has at one place of a layout. -/
def Layout.valuesAt (l : Layout) (p : Place) (document : String) : List String :=
  (Markup.collect [l.anchor.extend [p.element, p.textElement]] document).getD 0 []

theorem Layout.nodup_locations (s : Scheme) : (s.layout.places.map Place.location).Nodup := by
  cases s <;> decide

theorem Layout.nodup_elements (s : Scheme) : (s.layout.places.map Place.element).Nodup := by
  cases s <;> decide

/-- Whether some value at a place begins with the text of the code. -/
def Code.FoundAt (c : Code) (p : Place) (document : String) : Prop :=
  ∃ v ∈ c.scheme.layout.valuesAt p document, c.text.toList <+: v.toList

def Code.testAt (c : Code) (p : Place) : FieldTest := ⟨p, c.text⟩

namespace Query

theorem tests_ofSound (c : Code) : (ofSound c).tests = c.scheme.layout.places.map c.testAt := rfl

theorem getElem?_tests_ofSound_iff {c : Code} {j : Nat} {t : FieldTest} :
    (ofSound c).tests[j]? = some t ↔ ∃ p, c.scheme.layout.places[j]? = some p ∧ c.testAt p = t := by
  rw [tests_ofSound, List.getElem?_map, Option.map_eq_some_iff]

theorem valuesFor_testAt (c : Code) (p : Place) (document : String) :
    (ofSound c).valuesFor (c.testAt p) document = c.scheme.layout.valuesAt p document := rfl

theorem forall_accepts_eq_false_iff {c : Code} {p : Place} {document : String} :
    (∀ v ∈ (ofSound c).valuesFor (c.testAt p) document, (c.testAt p).accepts v = false) ↔
      ¬ c.FoundAt p document := by
  simp only [valuesFor_testAt, Code.FoundAt, not_exists, not_and, Bool.eq_false_iff, ne_eq,
    FieldTest.accepts_iff]
  rfl

end Query

namespace QuerySet

theorem getElem?_queries_of_compile {wanted : List Code} {s : QuerySet} {i : Nat} {q : Query}
    (h : (compile wanted).1 = .ok s) :
    s.queries[i]? = some q ↔ ∃ c, (compileOrder wanted)[i]? = some c ∧ Query.ofSound c = q := by
  rw [(compile_eq_ok_iff.mp h).2, queries_ofQueries, List.getElem?_map, Option.map_eq_some_iff]

/-- A hit names the first code in the order of compiling that is found anywhere, and the first of
its places where it is found. -/
theorem evaluate_eq_some_of_compile {wanted : List Code} {s : QuerySet} {document : String}
    {h : Hit} (hs : (compile wanted).1 = .ok s) (hHit : s.evaluate document = some h) :
    ∃ c p, (compileOrder wanted)[h.query]? = some c ∧ c.scheme.layout.places[h.test]? = some p ∧
      p.location = h.location ∧ h.value ∈ c.scheme.layout.valuesAt p document ∧
      c.text.toList <+: h.value.toList ∧
      (∀ i c', i < h.query → (compileOrder wanted)[i]? = some c' →
        ∀ p' ∈ c'.scheme.layout.places, ¬ c'.FoundAt p' document) ∧
      ∀ j p', j < h.test → c.scheme.layout.places[j]? = some p' → ¬ c.FoundAt p' document := by
  obtain ⟨q, t, hq, ht, hLocation, hv, hTests, hQueries⟩ :=
    (Reachable.compile hs).indexed.evaluate_eq_some_iff.mp hHit
  obtain ⟨c, hc, rfl⟩ := (getElem?_queries_of_compile hs).mp hq
  obtain ⟨p, hp, rfl⟩ := Query.getElem?_tests_ofSound_iff.mp ht
  refine ⟨c, p, hc, hp, hLocation.symm, List.mem_of_find?_eq_some hv,
    FieldTest.accepts_iff.mp (List.find?_some hv), fun i c' hi hc' p' hp' => ?_,
    fun j p' hj hp' => ?_⟩
  · have hEarlier := hQueries i _ hi ((getElem?_queries_of_compile hs).mpr ⟨c', hc', rfl⟩)
    exact Query.forall_accepts_eq_false_iff.mp (hEarlier (c'.testAt p') (List.mem_map_of_mem hp'))
  · exact Query.forall_accepts_eq_false_iff.mp
      (hTests j _ hj (Query.getElem?_tests_ofSound_iff.mpr ⟨p', hp', rfl⟩))

theorem firing_of_compile {wanted : List Code} {s : QuerySet} {f : Firing}
    (hs : (compile wanted).1 = .ok s) (hFiring : s.firing? f.hit = some f) {c : Code} {p : Place}
    (hc : (compileOrder wanted)[f.hit.query]? = some c)
    (hp : c.scheme.layout.places[f.hit.test]? = some p) :
    Query.ofCode c = .ok f.query ∧ f.query = .ofSound c ∧ f.test = c.testAt p := by
  obtain ⟨hQuery, hTest, _⟩ := firing?_eq_some_iff.mp hFiring
  obtain ⟨c', hc', hSound⟩ := (getElem?_queries_of_compile hs).mp hQuery
  obtain rfl := Option.some.inj (hc.symm.trans hc')
  rw [← hSound] at hTest ⊢
  obtain ⟨p', hp', hTestAt⟩ := Query.getElem?_tests_ofSound_iff.mp hTest
  obtain rfl := Option.some.inj (hp.symm.trans hp')
  have hWanted : c ∈ wanted := mem_compileOrder.mp (List.mem_of_getElem? hc)
  exact ⟨Query.ofCode_eq_ok_iff.mpr ⟨(compile_eq_ok_iff.mp hs).1 c hWanted, rfl⟩, rfl, hTestAt.symm⟩

theorem evaluate_eq_none_iff_of_compile {wanted : List Code} {s : QuerySet} {document : String}
    (hs : (compile wanted).1 = .ok s) :
    s.evaluate document = none ↔
      ∀ c ∈ wanted, ∀ p ∈ c.scheme.layout.places, ¬ c.FoundAt p document := by
  rw [(Reachable.compile hs).indexed.evaluate_eq_none_iff, (compile_eq_ok_iff.mp hs).2,
    queries_ofQueries]
  simp only [List.forall_mem_map, mem_compileOrder, Query.tests_ofSound,
    Query.forall_accepts_eq_false_iff]

end QuerySet

end PatentFilter

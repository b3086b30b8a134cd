import PatentFilter.Proofs.QuerySet.Compiled
import PatentFilter.Proofs.Specimen.Forest

/-!
# What is found in a specimen

A specimen has at each place of a layout the field recorded there and nothing else. So the hit is
told from the wanted codes and the fields alone, and a description of any length does not change it.
-/

namespace PatentFilter

def Code.Begins (c : Code) (field : Option String) : Prop :=
  ∃ v ∈ field, c.text.toList <+: v.toList

instance (c : Code) (field : Option String) : Decidable (c.Begins field) :=
  inferInstanceAs (Decidable (∃ v ∈ field, c.text.toList <+: v.toList))

namespace Layout

theorem exists_place (s : Scheme) (l : Location) : ∃ p ∈ s.layout.places, p.location = l := by
  cases s <;> cases l <;> decide

/-- The primary place of a scheme stands before every other. -/
theorem location_eq_or_first {s : Scheme} {j : Nat} {p : Place}
    (hp : s.layout.places[j]? = some p) :
    p.location = .primary ∨
      ∃ p', s.layout.places[0]? = some p' ∧ p'.location = .primary ∧ 0 < j := by
  obtain ⟨first, hFirst, hPrimary⟩ : ∃ first, s.layout.places[0]? = some first ∧
      first.location = .primary := by
    cases s
    · exact ⟨_, rfl, rfl⟩
    · exact ⟨_, rfl, rfl⟩
  rcases Nat.eq_zero_or_pos j with rfl | hPos
  · obtain rfl := Option.some.inj (hFirst.symm.trans hp)
    exact .inl hPrimary
  · exact .inr ⟨first, hFirst, hPrimary, hPos⟩

end Layout

namespace Specimen

/-- A document that has at each place of a layout what is recorded for it. -/
def Records (fields : Scheme → Location → Option String) (document : String) : Prop :=
  ∀ s : Scheme, ∀ p ∈ s.layout.places,
    s.layout.valuesAt p document = (fields s p.location).toList

/-- The hit that the fields of a document call for: of the first code in the order of compiling
that begins a field of its scheme, at the primary field if it begins that one. -/
structure FirstHit (wanted : List Code) (fields : Scheme → Location → Option String) (c : Code)
    (h : Hit) : Prop where
  code : (QuerySet.compileOrder wanted)[h.query]? = some c
  earlier : ∀ i c', i < h.query → (QuerySet.compileOrder wanted)[i]? = some c' →
    ∀ l, ¬ c'.Begins (fields c'.scheme l)
  test : (c.scheme.layout.places.map Place.location)[h.test]? = some h.location
  primary : h.location = .primary ↔ c.Begins (fields c.scheme .primary)
  value : fields c.scheme h.location = some h.value
  stem : c.text.toList <+: h.value.toList

section Fields

variable {wanted : List Code} {fields : Scheme → Location → Option String} {s : QuerySet}
  {document : String}

theorem Records.foundAt_iff (hRecords : Records fields document) {c : Code} {p : Place}
    (hp : p ∈ c.scheme.layout.places) :
    c.FoundAt p document ↔ c.Begins (fields c.scheme p.location) := by
  rw [Code.FoundAt, Code.Begins, hRecords c.scheme p hp]
  simp only [Option.mem_toList, Option.mem_def]

theorem Records.forall_not_foundAt_iff (hRecords : Records fields document) {c : Code} :
    (∀ p ∈ c.scheme.layout.places, ¬ c.FoundAt p document) ↔
      ∀ l, ¬ c.Begins (fields c.scheme l) := by
  constructor
  · intro hNot l
    obtain ⟨p, hp, rfl⟩ := Layout.exists_place c.scheme l
    exact (hRecords.foundAt_iff hp).not.mp (hNot p hp)
  · intro hNot p hp
    exact (hRecords.foundAt_iff hp).not.mpr (hNot p.location)

theorem FirstHit.begins {c : Code} {h : Hit} (hFirst : FirstHit wanted fields c h) :
    c.Begins (fields c.scheme h.location) :=
  ⟨h.value, hFirst.value, hFirst.stem⟩

theorem FirstHit.query_le {c c' : Code} {h h' : Hit} (hFirst : FirstHit wanted fields c h)
    (hOther : FirstHit wanted fields c' h') : h.query ≤ h'.query := by
  by_contra hLess
  exact hFirst.earlier h'.query c' (not_le.mp hLess) hOther.code h'.location hOther.begins

theorem FirstHit.unique {c c' : Code} {h h' : Hit} (hFirst : FirstHit wanted fields c h)
    (hOther : FirstHit wanted fields c' h') : h = h' := by
  have hQuery : h.query = h'.query :=
    le_antisymm (hFirst.query_le hOther) (hOther.query_le hFirst)
  obtain rfl : c = c' := by
    have hCode := hFirst.code
    rw [hQuery, hOther.code] at hCode
    exact (Option.some.inj hCode).symm
  have hLocation : h.location = h'.location := by
    have hPrimary := hFirst.primary.trans hOther.primary.symm
    cases hl : h.location with
    | primary => exact (hPrimary.mp hl).symm
    | secondary =>
      cases hl' : h'.location with
      | primary => cases hl.symm.trans (hPrimary.mpr hl')
      | secondary => rfl
  have hValue : h.value = h'.value := by
    have hField := hFirst.value
    rw [hLocation, hOther.value] at hField
    exact (Option.some.inj hField).symm
  have hTest : h.test = h'.test := by
    have hAt := hFirst.test
    rw [hLocation, ← hOther.test] at hAt
    have hBound := (List.getElem?_eq_some_iff.mp hFirst.test).1
    exact (List.getElem?_inj hBound (Layout.nodup_locations c.scheme)).mp hAt
  cases h
  cases h'
  rw [Hit.mk.injEq]
  exact ⟨hQuery, hTest, hLocation, hValue⟩

theorem evaluate_eq_none_iff_of_records (hs : (QuerySet.compile wanted).1 = .ok s)
    (hRecords : Records fields document) :
    s.evaluate document = none ↔ ∀ c ∈ wanted, ∀ l, ¬ c.Begins (fields c.scheme l) := by
  rw [QuerySet.evaluate_eq_none_iff_of_compile hs]
  simp only [hRecords.forall_not_foundAt_iff]

theorem exists_firstHit_of_evaluate (hs : (QuerySet.compile wanted).1 = .ok s)
    (hRecords : Records fields document) {h : Hit} (hHit : s.evaluate document = some h) :
    ∃ c, FirstHit wanted fields c h := by
  obtain ⟨c, p, hCode, hPlace, hLocation, hValue, hStem, hEarlier, hBefore⟩ :=
    QuerySet.evaluate_eq_some_of_compile hs hHit
  have hField : fields c.scheme h.location = some h.value := by
    rwa [hRecords c.scheme p (List.mem_of_getElem? hPlace), hLocation, Option.mem_toList] at hValue
  refine ⟨c, hCode, fun i c' hi hc' => ?_, ?_, ⟨?_, ?_⟩, hField, hStem⟩
  · exact hRecords.forall_not_foundAt_iff.mp (hEarlier i c' hi hc')
  · rw [List.getElem?_map, hPlace, Option.map_some, hLocation]
  · intro hPrimary
    exact ⟨h.value, hPrimary ▸ hField, hStem⟩
  · intro hBegins
    rcases Layout.location_eq_or_first hPlace with hPrimary | ⟨first, hFirst, hPrimary, hPos⟩
    · exact hLocation.symm.trans hPrimary
    · have hFound := hRecords.foundAt_iff (List.mem_of_getElem? hFirst)
      rw [hPrimary] at hFound
      exact absurd (hFound.mpr hBegins) (hBefore 0 first hPos hFirst)

theorem evaluate_eq_some_iff_of_records (hs : (QuerySet.compile wanted).1 = .ok s)
    (hRecords : Records fields document) {h : Hit} :
    s.evaluate document = some h ↔ ∃ c, FirstHit wanted fields c h := by
  constructor
  · exact exists_firstHit_of_evaluate hs hRecords
  · rintro ⟨c, hFirst⟩
    cases hEvaluate : s.evaluate document with
    | none =>
      have hWanted := QuerySet.mem_compileOrder.mp (List.mem_of_getElem? hFirst.code)
      have hNot := (evaluate_eq_none_iff_of_records hs hRecords).mp hEvaluate
      exact absurd hFirst.begins (hNot c hWanted h.location)
    | some h' =>
      obtain ⟨c', hOther⟩ := exists_firstHit_of_evaluate hs hRecords hEvaluate
      rw [hFirst.unique hOther]

end Fields

theorem exists_plain {v : Option String} (h : ∀ text ∈ v, '<' ∉ text.toList) :
    ∃ plain : Option PlainText, plain.map Subtype.val = v := by
  cases v with
  | none => exact ⟨none, rfl⟩
  | some text => exact ⟨some ⟨text, h text rfl⟩, rfl⟩

theorem records_body (a b c d : Option PlainText) {ending : List Markup.Item}
    (hEnding : (Markup.nodesOf ending).filter (·.isNamed "SDOBI") = []) :
    Records
      (recorded (a.map Subtype.val) (b.map Subtype.val) (c.map Subtype.val) (d.map Subtype.val))
      (body (a.map Subtype.val) (b.map Subtype.val) (c.map Subtype.val) (d.map Subtype.val) ++
        Markup.render ending ++ rootEnd) := by
  intro s p hp
  have hField : recorded (a.map Subtype.val) (b.map Subtype.val) (c.map Subtype.val)
      (d.map Subtype.val) s p.location = (recorded a b c d s p.location).map Subtype.val := by
    cases s <;> cases p.location <;> rfl
  rw [hField, Layout.valuesAt, body_append_eq_render, collect_declaration_render,
    ← valuesAt_forest hEnding hp]
  rfl

theorem records_patent {a b c d : Option String}
    (hPlain : ∀ field ∈ [a, b, c, d], ∀ text ∈ field, '<' ∉ text.toList) :
    Records (recorded a b c d) (patent a b c d) := by
  obtain ⟨a, rfl⟩ := exists_plain (hPlain a (by simp))
  obtain ⟨b, rfl⟩ := exists_plain (hPlain b (by simp))
  obtain ⟨c, rfl⟩ := exists_plain (hPlain c (by simp))
  obtain ⟨d, rfl⟩ := exists_plain (hPlain d (by simp))
  have hEnding : (Markup.nodesOf []).filter (·.isNamed "SDOBI") = [] := rfl
  have hRecords := records_body a b c d hEnding
  rwa [render_nil, String.append_empty] at hRecords

theorem records_longPatent {x y : String} (hx : '<' ∉ x.toList) (hy : '<' ∉ y.toList)
    (paragraphs : Nat) :
    Records (recorded (some x) none (some y) none) (longPatent x y paragraphs) := by
  rw [longPatent, ← render_descriptionItems]
  exact records_body (some ⟨x, hx⟩) none (some ⟨y, hy⟩) none (filter_descriptionItems paragraphs)

/-- On a specimen a compiled set finds nothing if no wanted code begins a field of its scheme, and
else the first hit that the fields call for; a description of any length does not change it. -/
theorem evaluate_specimen {wanted : List Code} {s : QuerySet}
    (hs : (QuerySet.compile wanted).1 = .ok s) :
    s.queries = (QuerySet.compileOrder wanted).map Query.ofSound ∧
    (∀ a b c d : Option String,
      (∀ field ∈ [a, b, c, d], ∀ text ∈ field, '<' ∉ text.toList) →
      (s.evaluate (patent a b c d) = none ↔
        ∀ k ∈ wanted, ∀ l, ¬ k.Begins (recorded a b c d k.scheme l)) ∧
      ∀ h, s.evaluate (patent a b c d) = some h ↔
        ∃ k, FirstHit wanted (recorded a b c d) k h) ∧
    ∀ (x y : String) (paragraphs : Nat), '<' ∉ x.toList → '<' ∉ y.toList →
      s.evaluate (longPatent x y paragraphs) =
        s.evaluate (patent (some x) none (some y) none) := by
  refine ⟨?_, ?_, ?_⟩
  · rw [(QuerySet.compile_eq_ok_iff.mp hs).2, QuerySet.queries_ofQueries]
  · intro a b c d hPlain
    have hRecords := records_patent hPlain
    exact ⟨evaluate_eq_none_iff_of_records hs hRecords,
      fun h => evaluate_eq_some_iff_of_records hs hRecords⟩
  · intro x y paragraphs hx hy
    have hLong := records_longPatent hx hy paragraphs
    have hShort : Records (recorded (some x) none (some y) none)
        (patent (some x) none (some y) none) := records_patent (by simp [hx, hy])
    ext h
    rw [evaluate_eq_some_iff_of_records hs hLong, evaluate_eq_some_iff_of_records hs hShort]

/-- A copied field beats a field of its own of the later scheme; behind a field that no code begins
the later scheme has its turn, in a document of many paragraphs too. -/
theorem evaluate_specimen_long :
    let wanted : List Code := [.uspc "705", .cpc "H" "04" "N" "21"]
    let s := QuerySet.ofQueries ((QuerySet.compileOrder wanted).map Query.ofSound)
    (QuerySet.compile wanted).1 = .ok s ∧
      s.evaluate (patent (some "\"G06>") (some "H04N2112") (some "705&") none) =
        some ⟨0, 1, .secondary, "H04N2112"⟩ ∧
      s.evaluate (patent none (some "") none (some "70")) = none ∧
      s.evaluate (longPatent "G06F17" "7051" 100000) = some ⟨1, 0, .primary, "7051"⟩ := by
  intro wanted s
  have hs : (QuerySet.compile wanted).1 = .ok s := QuerySet.compile_eq_ok_iff.mpr ⟨by decide, rfl⟩
  obtain ⟨_, hShort, hLong⟩ := evaluate_specimen hs
  refine ⟨hs, ?_, ?_, ?_⟩
  · apply ((hShort _ _ _ _ (by simp)).2 _).mpr
    refine ⟨.cpc "H" "04" "N" "21", rfl, ?_, rfl, by decide, rfl, by decide⟩
    intro i c' hi
    exact absurd hi (Nat.not_lt_zero i)
  · refine (hShort _ _ _ _ (by simp)).1.mpr ?_
    rintro k hk (_ | _)
    · revert k
      decide
    · revert k
      decide
  · rw [hLong _ _ _ (by decide) (by decide)]
    apply ((hShort _ _ _ _ (by simp)).2 _).mpr
    refine ⟨.uspc "705", rfl, ?_, rfl, by decide, rfl, by decide⟩
    intro i c' hi hc'
    obtain rfl : i = 0 := Nat.lt_one_iff.mp hi
    obtain rfl : .cpc "H" "04" "N" "21" = c' := Option.some.inj hc'
    rintro (_ | _)
    · decide
    · decide

end Specimen

end PatentFilter

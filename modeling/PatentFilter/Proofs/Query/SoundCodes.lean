import PatentFilter.Query.Basic

/-!
# Sound codes

A code has a query exactly if each of its levels holds something besides blanks and no quote. If not,
the fault is about the first level from the top that does not. What a query accepts begins with the
levels run together, so it is never blank.
-/

namespace PatentFilter

/-- The contents of a level that a query can be made of. -/
structure IsSoundPart (part : String) : Prop where
  visible : ∃ ch ∈ part.toList, Text.isBlank ch = false
  unquoted : '\'' ∉ part.toList

theorem isSoundPart_iff {part : String} :
    IsSoundPart part ↔ Text.allBlank part = false ∧ '\'' ∉ part.toList := by
  rw [Text.allBlank_eq_false_iff]
  exact ⟨fun h => ⟨h.visible, h.unquoted⟩, fun ⟨hVisible, hUnquoted⟩ => ⟨hVisible, hUnquoted⟩⟩

namespace Code

theorem fieldFault?_eq_none_iff_isSoundPart {c : Code} {field : Level × String} :
    c.fieldFault? field = none ↔ IsSoundPart field.2 := by
  rw [fieldFault?_eq_none_iff, isSoundPart_iff]

theorem fieldFault?_eq_some_iff {c : Code} {field : Level × String} {f : CodeFault} :
    c.fieldFault? field = some f ↔
      Text.allBlank field.2 = true ∧ f = .blankField c field.1 ∨
      Text.allBlank field.2 = false ∧ '\'' ∈ field.2.toList ∧
        f = .quoteInField c.scheme field.1 field.2 := by
  unfold fieldFault?
  cases Text.allBlank field.2 with
  | true => simp [eq_comm]
  | false =>
    by_cases hQuote : '\'' ∈ field.2.toList <;> simp [hQuote, eq_comm]

theorem map_snd_fields (c : Code) : c.fields.map Prod.snd = c.parts :=
  List.map_snd_zip (Nat.le_of_eq c.length_parts)

theorem fault?_eq_none_iff_isSoundPart {c : Code} :
    c.fault? = none ↔ ∀ part ∈ c.parts, IsSoundPart part := by
  simp only [fault?_eq_none_iff, ← isSoundPart_iff]
  rw [← map_snd_fields, List.forall_mem_map]

theorem fault?_eq_some_iff {c : Code} {f : CodeFault} :
    c.fault? = some f ↔
      ∃ higher field lower, c.fields = higher ++ field :: lower ∧ c.fieldFault? field = some f ∧
        ∀ above ∈ higher, IsSoundPart above.2 := by
  simp only [fault?, List.findSome?_eq_some_iff, fieldFault?_eq_none_iff_isSoundPart]

theorem exists_visible_text {c : Code} (h : ∀ part ∈ c.parts, IsSoundPart part) :
    ∃ ch ∈ c.text.toList, Text.isBlank ch = false := by
  obtain ⟨part, hPart⟩ : ∃ part, part ∈ c.parts := by
    cases c <;> exact ⟨_, List.mem_cons_self⟩
  obtain ⟨ch, hMem, hVisible⟩ := (h part hPart).visible
  refine ⟨ch, ?_, hVisible⟩
  rw [toList_text]
  exact List.mem_flatMap.mpr ⟨part, hPart, hMem⟩

end Code

namespace Query

/-- A code has a query if and only if all its levels are sound; otherwise the first one that is not
is reported, a blank one with the text of the code, one with a quote with its contents. The query
follows the layout of its scheme place by place, each test has the levels run together for its stem,
and nothing blank is ever accepted. -/
theorem ofCode_of_levels (c : Code) :
    ((∃ q, ofCode c = .ok q) ↔ ∀ part ∈ c.parts, IsSoundPart part) ∧
    (∀ f, ofCode c = .error f ↔
      ∃ higher level part lower, c.fields = higher ++ (level, part) :: lower ∧
        (∀ above ∈ higher, IsSoundPart above.2) ∧
        (Text.allBlank part = true ∧ f = .blankField c level ∧
            f.message = c.scheme.name ++ " code '" ++ c.text ++ "' has an empty " ++ level.name ++
              " field" ∨
          Text.allBlank part = false ∧ '\'' ∈ part.toList ∧
            f = .quoteInField c.scheme level part)) ∧
    ∀ q, ofCode c = .ok q →
      q.code = c ∧ q.anchor = c.scheme.layout.anchor ∧
      q.tests.map FieldTest.place = c.scheme.layout.places ∧
      ∀ t ∈ q.tests, t.stem.toList = c.parts.flatMap String.toList ∧
        ∀ v, t.accepts v = true →
          c.parts.flatMap String.toList <+: v.toList ∧ ∃ ch ∈ v.toList, Text.isBlank ch = false := by
  refine ⟨?_, fun f => ?_, fun q hq => ?_⟩
  · rw [exists_ofCode_eq_ok_iff, Code.fault?_eq_none_iff_isSoundPart]
  · rw [ofCode_eq_error_iff, Code.fault?_eq_some_iff]
    constructor
    · rintro ⟨higher, ⟨level, part⟩, lower, hSplit, hFault, hHigher⟩
      refine ⟨higher, level, part, lower, hSplit, hHigher, ?_⟩
      rcases Code.fieldFault?_eq_some_iff.mp hFault with ⟨hBlank, rfl⟩ | hQuote
      · exact .inl ⟨hBlank, rfl, rfl⟩
      · exact .inr hQuote
    · rintro ⟨higher, level, part, lower, hSplit, hHigher, hFault⟩
      refine ⟨higher, (level, part), lower, hSplit, Code.fieldFault?_eq_some_iff.mpr ?_, hHigher⟩
      rcases hFault with ⟨hBlank, hEq, _⟩ | hQuote
      · exact .inl ⟨hBlank, hEq⟩
      · exact .inr hQuote
  · obtain ⟨hNone, rfl⟩ := ofCode_eq_ok_iff.mp hq
    have hSound := Code.fault?_eq_none_iff_isSoundPart.mp hNone
    refine ⟨rfl, rfl, by simp [ofSound, Function.comp_def], fun t ht => ?_⟩
    obtain ⟨p, _, rfl⟩ := List.mem_map.mp ht
    refine ⟨c.toList_text, fun v hv => ?_⟩
    have hPrefix : c.text.toList <+: v.toList := FieldTest.accepts_iff.mp hv
    obtain ⟨ch, hMem, hVisible⟩ := Code.exists_visible_text hSound
    rw [← c.toList_text]
    exact ⟨hPrefix, ch, hPrefix.subset hMem, hVisible⟩

/-- Two levels are bad, and the higher one is reported: it holds a no-break space only. The mended
code has a query, and no value of blanks fits it. -/
theorem ofCode_of_levels_blankFirst :
    let bad : Code := .cpc "H" "\u00a0" "N'" "21"
    let good : Code := .cpc "H" "04" "N" "21"
    ofCode bad = .error (.blankField bad .mainClass) ∧ ofCode good = .ok (ofSound good) ∧
      ∀ t ∈ (ofSound good).tests, t.accepts " \t" = false := by
  intro bad good
  have hGood : ofCode good = .ok (ofSound good) := ofCode_eq_ok_iff.mpr ⟨by decide, rfl⟩
  have hSection : IsSoundPart "H" := ⟨⟨'H', by decide, by decide⟩, by decide⟩
  obtain ⟨_, hFault, _⟩ := ofCode_of_levels bad
  obtain ⟨_, _, hAccepted⟩ := ofCode_of_levels good
  refine ⟨(hFault _).mpr ⟨[(.sectionLetter, "H")], .mainClass, "\u00a0", _, rfl, by simpa,
    .inl ⟨by decide, rfl, rfl⟩⟩, hGood, fun t ht => Bool.eq_false_iff.mpr fun hAccepts => ?_⟩
  obtain ⟨_, _, _, hTests⟩ := hAccepted _ hGood
  obtain ⟨_, ch, hMem, hVisible⟩ := (hTests t ht).2 _ hAccepts
  have hBlank : ∀ ch ∈ " \t".toList, Text.isBlank ch = true := List.all_eq_true.mp (by decide)
  rw [hBlank ch hMem] at hVisible
  cases hVisible

end Query

end PatentFilter

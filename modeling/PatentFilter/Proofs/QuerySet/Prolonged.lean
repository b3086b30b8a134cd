import PatentFilter.Proofs.Markup.Persistence
import PatentFilter.Proofs.QuerySet.Compiled

/-!
# Documents that go on

A set that finds something in a document finds it, or something that is tried earlier, in every
document that starts with it, as long as no wanted code has a `<` in it.
-/

namespace PatentFilter

theorem Query.valuesFor_eq (q : Query) (t : FieldTest) (document : String) :
    q.valuesFor t document =
      Markup.valuesAt (q.valuePath t).names (Markup.forestOf (Markup.tokens document.toList)) := by
  rw [valuesFor, Markup.collect_eq_map_valuesAt]
  rfl

theorem Query.exists_accepted_append {q : Query} {t : FieldTest} {document v : String}
    (hStem : '<' ∉ t.stem.toList) (hv : v ∈ q.valuesFor t document) (hAccepts : t.accepts v = true)
    (more : String) : ∃ w ∈ q.valuesFor t (document ++ more), t.accepts w = true := by
  rw [valuesFor_eq] at hv
  rw [FieldTest.accepts_iff] at hAccepts
  obtain ⟨w, hw, hPrefix⟩ :=
    Markup.exists_valuesAt_append (q.valuePath t).names hStem hAccepts hv more.toList
  refine ⟨w, ?_, FieldTest.accepts_iff.mpr hPrefix⟩
  rwa [valuesFor_eq, String.toList_append]

namespace QuerySet

variable {s : QuerySet}

/-- Where one test accepts a value, there is a hit that is tried no later. -/
theorem Indexed.exists_hit_le (hs : s.Indexed) {document : String} {q : Query} {t : FieldTest}
    {i j : Nat} {v : String} (hq : s.queries[i]? = some q) (ht : q.tests[j]? = some t)
    (hv : v ∈ q.valuesFor t document) (hAccepts : t.accepts v = true) :
    ∃ h, s.evaluate document = some h ∧ toLex (h.query, h.test) ≤ toLex (i, j) := by
  cases hHit : s.evaluate document with
  | none =>
    have hNone := hs.evaluate_eq_none_iff.mp hHit q (List.mem_of_getElem? hq) t
      (List.mem_of_getElem? ht) v hv
    rw [hAccepts] at hNone
    cases hNone
  | some h =>
    obtain ⟨k, hk⟩ := List.mem_iff_getElem?.mp hv
    obtain ⟨_, _, _, _, _, hFirst⟩ := hs.evaluate_eq_some_iff_firstFit.mp hHit
    have hLe := lex_le_iff.mp (hFirst q t v i j k ⟨hq, ht, hk, hAccepts⟩)
    refine ⟨h, rfl, ?_⟩
    rw [Prod.Lex.toLex_le_toLex]
    rcases hLe with hQuery | ⟨hQuery, hTest | ⟨hTest, _⟩⟩
    · exact .inl hQuery
    · exact .inr ⟨hQuery, Nat.le_of_lt hTest⟩
    · exact .inr ⟨hQuery, Nat.le_of_eq hTest⟩

/-- A hit is never lost when the rest of the document arrives, wherever it was cut. -/
theorem evaluate_append_le {wanted : List Code} (hs : (compile wanted).1 = .ok s)
    (hFields : ∀ c ∈ wanted, ∀ part ∈ c.parts, '<' ∉ part.toList) (document more : String)
    {h : Hit} (hHit : s.evaluate document = some h) :
    ∃ h', s.evaluate (document ++ more) = some h' ∧
      toLex (h'.query, h'.test) ≤ toLex (h.query, h.test) := by
  have hIndexed := (Reachable.compile hs).indexed
  obtain ⟨q, t, hq, ht, _, hv, _⟩ := hIndexed.evaluate_eq_some_iff.mp hHit
  obtain ⟨c, hc, rfl⟩ := (getElem?_queries_of_compile hs).mp hq
  obtain ⟨p, _, rfl⟩ := Query.getElem?_tests_ofSound_iff.mp ht
  have hStem : '<' ∉ (c.testAt p).stem.toList :=
    Code.notMem_text (hFields c (mem_compileOrder.mp (List.mem_of_getElem? hc)))
  obtain ⟨w, hw, hAccepts⟩ := Query.exists_accepted_append hStem (List.mem_of_find?_eq_some hv)
    (List.find?_some hv) more
  exact hIndexed.exists_hit_le hq ht hw hAccepts

/-- Cut inside an end tag, the document has a hit of the second code; the rest brings one of the
first. -/
theorem evaluate_append_le_insideTag :
    let wanted : List Code := [.uspc "8", .uspc "705"]
    let s := ofQueries (wanted.map Query.ofSound)
    let document := "<PATDOC><SDOBI><B500><B520><B522><PDAT>7051</PD"
    let more := "AT></B522><B521><PDAT>86</PDAT></B521>"
    let h : Hit := ⟨1, 1, .secondary, "7051</PD"⟩
    (compile wanted).1 = .ok s ∧ (∀ c ∈ wanted, ∀ part ∈ c.parts, '<' ∉ part.toList) ∧
      s.evaluate document = some h ∧
      ∃ h', s.evaluate (document ++ more) = some h' ∧
        toLex (h'.query, h'.test) ≤ toLex (h.query, h.test) := by
  intro wanted s document more h
  have hs : (compile wanted).1 = .ok s := compile_eq_ok_iff.mpr ⟨by decide, rfl⟩
  have hFields : ∀ c ∈ wanted, ∀ part ∈ c.parts, '<' ∉ part.toList := by decide
  have hHit : s.evaluate document = some h := by decide +kernel
  exact ⟨hs, hFields, hHit, evaluate_append_le hs hFields document more hHit⟩

end QuerySet

end PatentFilter

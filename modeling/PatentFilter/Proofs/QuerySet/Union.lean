import PatentFilter.Proofs.QuerySet.Compiled

/-!
# A set matches as the union of its codes

Which hit a set reports depends on the order of its codes; whether it reports one does not. It does
exactly if one of the codes is found somewhere in the document, and a code with a shorter text is
found wherever a longer one of its scheme is.
-/

namespace PatentFilter

namespace Code

def FoundIn (c : Code) (document : String) : Prop :=
  ∃ p ∈ c.scheme.layout.places, c.FoundAt p document

theorem FoundIn.of_prefix {c c' : Code} {document : String} (h : c.FoundIn document)
    (hScheme : c'.scheme = c.scheme) (hPrefix : c'.text.toList <+: c.text.toList) :
    c'.FoundIn document := by
  obtain ⟨p, hp, v, hv, hStem⟩ := h
  refine ⟨p, ?_, v, ?_, hPrefix.trans hStem⟩
  · rwa [hScheme]
  · rwa [hScheme]

end Code

namespace QuerySet

variable {V W : List Code} {s : QuerySet}

theorem isSome_evaluate_iff (hs : (compile V).1 = .ok s) {document : String} :
    (s.evaluate document).isSome = true ↔ ∃ c ∈ V, c.FoundIn document := by
  rw [Option.isSome_iff_ne_none, ne_eq, evaluate_eq_none_iff_of_compile hs]
  simp only [Code.FoundIn, not_forall, not_not, exists_prop]

theorem exists_compile (h : ∀ c ∈ W, c.fault? = none) : ∃ s, (compile W).1 = .ok s :=
  ⟨_, compile_eq_ok_iff.mpr ⟨h, rfl⟩⟩

theorem exists_compile_of_built (hs : (compile V).1 = .ok s)
    (h : ∀ c ∈ W, c ∈ V ∨ ∃ q, Query.ofCode c = .ok q) : ∃ other, (compile W).1 = .ok other := by
  apply exists_compile
  intro c hc
  rcases h c hc with hOld | ⟨q, hq⟩
  · exact (compile_eq_ok_iff.mp hs).1 c hOld
  · exact (Query.ofCode_eq_ok_iff.mp hq).1

theorem exists_compile_single (hs : (compile V).1 = .ok s) {c : Code} (hc : c ∈ V) :
    ∃ alone, (compile [c]).1 = .ok alone := by
  apply exists_compile_of_built hs
  intro c' hc'
  rw [List.mem_singleton.mp hc']
  exact .inl hc

theorem isSome_evaluate_single {c : Code} {alone : QuerySet} (h : (compile [c]).1 = .ok alone)
    {document : String} : (alone.evaluate document).isSome = true ↔ c.FoundIn document := by
  rw [isSome_evaluate_iff h]
  simp only [List.mem_singleton, exists_eq_left]

theorem isSome_evaluate_iff_exists_single (hs : (compile V).1 = .ok s) {document : String} :
    (s.evaluate document).isSome = true ↔
      ∃ c ∈ V, ∃ alone, (compile [c]).1 = .ok alone ∧ (alone.evaluate document).isSome = true := by
  rw [isSome_evaluate_iff hs]
  constructor
  · rintro ⟨c, hc, hFound⟩
    obtain ⟨alone, hAlone⟩ := exists_compile_single hs hc
    exact ⟨c, hc, alone, hAlone, (isSome_evaluate_single hAlone).mpr hFound⟩
  · rintro ⟨c, hc, alone, hAlone, hMatch⟩
    exact ⟨c, hc, (isSome_evaluate_single hAlone).mp hMatch⟩

theorem isSome_evaluate_of_covers {other : QuerySet} (hs : (compile V).1 = .ok s)
    (hOther : (compile W).1 = .ok other)
    (hCovers : ∀ c ∈ V, ∃ c' ∈ W, c'.scheme = c.scheme ∧ c'.text.toList <+: c.text.toList)
    {document : String} (hMatch : (s.evaluate document).isSome = true) :
    (other.evaluate document).isSome = true := by
  obtain ⟨c, hc, hFound⟩ := (isSome_evaluate_iff hs).mp hMatch
  obtain ⟨c', hc', hScheme, hPrefix⟩ := hCovers c hc
  exact (isSome_evaluate_iff hOther).mpr ⟨c', hc', hFound.of_prefix hScheme hPrefix⟩

theorem isSome_evaluate_of_subset {other : QuerySet} (hs : (compile V).1 = .ok s)
    (hOther : (compile W).1 = .ok other) (hSubset : ∀ c ∈ V, c ∈ W) {document : String}
    (hMatch : (s.evaluate document).isSome = true) :
    (other.evaluate document).isSome = true :=
  isSome_evaluate_of_covers hs hOther (fun c hc => ⟨c, hSubset c hc, rfl, List.prefix_rfl⟩) hMatch

/-- A set matches a document exactly if one of its codes does so alone. It then matches with any
list that has, for each of its codes, one of the scheme with a text in front of that code's text;
so also when codes are added, and alike when codes are moved or repeated. -/
theorem isSome_evaluate_union (hs : (compile V).1 = .ok s) (document : String) :
    (∀ c ∈ V, ∃ alone, (compile [c]).1 = .ok alone) ∧
    ((s.evaluate document).isSome = true ↔
      ∃ c ∈ V, ∃ alone, (compile [c]).1 = .ok alone ∧ (alone.evaluate document).isSome = true) ∧
    (∀ W other, (compile W).1 = .ok other →
      (∀ c ∈ V, ∃ c' ∈ W, c'.scheme = c.scheme ∧ c'.text.toList <+: c.text.toList) →
      (s.evaluate document).isSome = true → (other.evaluate document).isSome = true) ∧
    (∀ W : List Code, (∀ c ∈ V, c ∈ W) → (∀ c ∈ W, c ∈ V ∨ ∃ q, Query.ofCode c = .ok q) →
      ∃ other, (compile W).1 = .ok other ∧
        ((s.evaluate document).isSome = true → (other.evaluate document).isSome = true)) ∧
    ∀ W : List Code, (∀ c, c ∈ W ↔ c ∈ V) →
      ∃ other, (compile W).1 = .ok other ∧
        (other.evaluate document).isSome = (s.evaluate document).isSome := by
  refine ⟨fun c hc => exists_compile_single hs hc, isSome_evaluate_iff_exists_single hs,
    fun W other hOther hCovers => isSome_evaluate_of_covers hs hOther hCovers, ?_, ?_⟩
  · intro W hSubset hBuilt
    obtain ⟨other, hOther⟩ := exists_compile_of_built hs hBuilt
    exact ⟨other, hOther, isSome_evaluate_of_subset hs hOther hSubset⟩
  · intro W hSame
    obtain ⟨other, hOther⟩ := exists_compile_of_built hs fun c hc => .inl ((hSame c).mp hc)
    refine ⟨other, hOther, ?_⟩
    rw [Bool.eq_iff_iff]
    constructor
    · exact isSome_evaluate_of_subset hOther hs fun c hc => (hSame c).mp hc
    · exact isSome_evaluate_of_subset hs hOther fun c hc => (hSame c).mpr hc

/-- Two codes of both schemes, of which one is found; a list with a shorter code; the two the other
way round, one of them twice. -/
theorem isSome_evaluate_union_shorter :
    let V : List Code := [.uspc "705", .cpc "H" "04" "N" "21"]
    let document := "<PATDOC><SDOBI><B500><B520><B521><PDAT>7051"
    let s := ofQueries ((compileOrder V).map Query.ofSound)
    let other := ofQueries [.ofSound (.cpc "H" "04" "N" "2"), .ofSound (.uspc "70")]
    (compile V).1 = .ok s ∧ (s.evaluate document).isSome = true ∧
      (other.evaluate document).isSome = true ∧
      ∃ turned, (compile [.cpc "H" "04" "N" "21", .uspc "705", .uspc "705"]).1 = .ok turned ∧
        (turned.evaluate document).isSome = true := by
  intro V document s other
  have hs : (compile V).1 = .ok s := compile_eq_ok_iff.mpr ⟨by decide, rfl⟩
  have hMatch : (s.evaluate document).isSome = true := by decide +kernel
  have hOther : (compile [.uspc "70", .cpc "H" "04" "N" "2"]).1 = .ok other :=
    compile_eq_ok_iff.mpr ⟨by decide, rfl⟩
  obtain ⟨_, _, hMono, _, hTurn⟩ := isSome_evaluate_union hs document
  have hCovers : ∀ c ∈ V, ∃ c' ∈ [Code.uspc "70", .cpc "H" "04" "N" "2"],
      c'.scheme = c.scheme ∧ c'.text.toList <+: c.text.toList := by decide
  obtain ⟨turned, hTurned, hSame⟩ := hTurn [.cpc "H" "04" "N" "21", .uspc "705", .uspc "705"]
    (by intro c; simp [V, or_comm])
  exact ⟨hs, hMatch, hMono _ other hOther hCovers hMatch, turned, hTurned, hSame.trans hMatch⟩

end QuerySet

end PatentFilter

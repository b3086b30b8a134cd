import PatentFilter.Proofs.QuerySet.Slots
import PatentFilter.Screening.Basic

/-!
# The order of compiling

Compiling tries every wanted code once, those of the first scheme before those of the second and
otherwise as they were given. It makes one query for each, in that order, or fails like the first
code in that order that has no query, which need not be the first in the list.
-/

namespace PatentFilter

namespace QuerySet

/-- A set with the query of one more code, if the code has one. -/
def pushCode (s : QuerySet) (c : Code) : Except CodeFault QuerySet :=
  (Query.ofCode c).map s.push

/-- Two passes over the wanted codes, one for each scheme. Each code is built and pushed before the
next one is looked at. -/
def compileInPasses (wanted : List Code) : Except CodeFault QuerySet :=
  [Scheme.cpc, .uspc].foldlM (fun s scheme => (Code.ofScheme scheme wanted).foldlM pushCode s) empty

theorem foldlM_pushCode (s : QuerySet) (codes : List Code) :
    codes.foldlM pushCode s = (codes.mapM Query.ofCode).map fun qs => qs.foldl push s := by
  induction codes generalizing s with
  | nil => rfl
  | cons c cs ih =>
    rw [List.foldlM_cons, List.mapM_cons, pushCode]
    cases Query.ofCode c with
    | error f => rfl
    | ok q =>
      refine (ih (s.push q)).trans ?_
      cases cs.mapM Query.ofCode <;> rfl

theorem compile_eq_compileInPasses (wanted : List Code) :
    (compile wanted).1 = compileInPasses wanted := by
  calc
    (compile wanted).1
      = (compileOrder wanted).foldlM pushCode empty := by
        rw [fst_compile, foldlM_pushCode]
        rfl
    _ = compileInPasses wanted := by
        rw [compileOrder, List.foldlM_append, compileInPasses, List.foldlM_cons]
        simp only [List.foldlM_cons, List.foldlM_nil, bind_pure]

theorem perm_compileOrder (wanted : List Code) : (compileOrder wanted).Perm wanted := by
  have hRest : Code.ofScheme .uspc wanted =
      wanted.filter fun c => !(c.scheme = .cpc) := by
    apply List.filter_congr
    intro c _
    cases h : c.scheme <;> rfl
  rw [compileOrder, hRest]
  exact List.filter_append_perm _ wanted

theorem exists_compile_eq_ok_iff {wanted : List Code} :
    (∃ s, (compile wanted).1 = .ok s) ↔ ∀ c ∈ wanted, ∃ q, Query.ofCode c = .ok q := by
  simp only [compile_eq_ok_iff, Query.exists_ofCode_eq_ok_iff, exists_and_left, exists_eq,
    and_true]

theorem compile_eq_error_iff {wanted : List Code} {f : CodeFault} :
    (compile wanted).1 = .error f ↔
      ∃ earlier c later, compileOrder wanted = earlier ++ c :: later ∧
        Query.ofCode c = .error f ∧ ∀ b ∈ earlier, ∃ q, Query.ofCode b = .ok q := by
  rw [fst_compile, ← Query.mapM_ofCode_eq_error_iff]
  cases (compileOrder wanted).mapM Query.ofCode <;> simp [Except.map]

theorem forall₂_queries_of_compile {wanted : List Code} {s : QuerySet}
    (hs : (compile wanted).1 = .ok s) :
    List.Forall₂ (fun c q => Query.ofCode c = .ok q) (compileOrder wanted) s.queries := by
  obtain ⟨hAll, rfl⟩ := compile_eq_ok_iff.mp hs
  rw [queries_ofQueries, List.forall₂_map_right_iff, List.forall₂_same]
  intro c hc
  exact Query.ofCode_eq_ok_iff.mpr ⟨hAll c (mem_compileOrder.mp hc), rfl⟩

end QuerySet

namespace Screening

theorem setUp_outcome (s : Screening) :
    s.setUp.2.1 =
      match (QuerySet.compile s.wanted).1 with
      | .ok _ => .ok ()
      | .error f => .error (.badCode f) := by
  unfold setUp
  split
  · next qs log h => rw [h]
  · next f log h => rw [h]

end Screening

namespace QuerySet

/-- Nothing is lost, added or reordered beyond the partition by scheme. There is a set exactly if
every wanted code has a query, and its queries are those of the codes in their order, pushed one by
one. Otherwise compiling fails like the first code in that order that has none, and so does the
set-up of a screening. -/
theorem compile_in_order (wanted : List Code) :
    compileOrder wanted =
        wanted.filter (fun c => c.scheme = .cpc) ++ wanted.filter (fun c => c.scheme = .uspc) ∧
    (compileOrder wanted).Perm wanted ∧
    (compile wanted).1 = compileInPasses wanted ∧
    ((∃ s, (compile wanted).1 = .ok s) ↔ ∀ c ∈ wanted, ∃ q, Query.ofCode c = .ok q) ∧
    (∀ s, (compile wanted).1 = .ok s →
      List.Forall₂ (fun c q => Query.ofCode c = .ok q) (compileOrder wanted) s.queries ∧
        s.queries.length = wanted.length ∧ s = s.queries.foldl push empty) ∧
    (∀ f, (compile wanted).1 = .error f ↔
      ∃ earlier c later, compileOrder wanted = earlier ++ c :: later ∧
        Query.ofCode c = .error f ∧ ∀ b ∈ earlier, ∃ q, Query.ofCode b = .ok q) ∧
    ∀ s : Screening, s.wanted = wanted →
      s.setUp.2.1 =
        match (compile wanted).1 with
        | .ok _ => .ok ()
        | .error f => .error (.badCode f) := by
  refine ⟨rfl, perm_compileOrder wanted, compile_eq_compileInPasses wanted,
    exists_compile_eq_ok_iff, fun s hs => ?_, fun f => compile_eq_error_iff, ?_⟩
  · have hBuilt := forall₂_queries_of_compile hs
    have hLength : s.queries.length = wanted.length :=
      hBuilt.length_eq.symm.trans (perm_compileOrder wanted).length_eq
    refine ⟨hBuilt, hLength, ?_⟩
    rw [(compile_eq_ok_iff.mp hs).2, queries_ofQueries]
    rfl
  · rintro s rfl
    exact s.setUp_outcome

/-- A USPC code without a query stands first in the list, but the CPC code behind it is tried
before it; with both mended the codes are moved and the repeated one is kept. -/
theorem compile_in_order_mixed :
    let bad : List Code := [.uspc "", .cpc "H" "" "N" "21", .uspc "705"]
    let good : List Code := [.uspc "705", .cpc "H" "04" "N" "21", .uspc "705"]
    let s := ofQueries [.ofSound (.cpc "H" "04" "N" "21"), .ofSound (.uspc "705"),
      .ofSound (.uspc "705")]
    (compile bad).1 = .error (.blankField (.cpc "H" "" "N" "21") .mainClass) ∧
      (Screening.ofWanted bad).setUp.2.1 =
        .error (.badCode (.blankField (.cpc "H" "" "N" "21") .mainClass)) ∧
      (compile good).1 = .ok s ∧ s.queries.length = good.length := by
  intro bad good s
  obtain ⟨_, _, _, _, _, hFault, hSetUp⟩ := compile_in_order bad
  obtain ⟨_, _, _, _, hQueries, _, _⟩ := compile_in_order good
  have hBad : (compile bad).1 = .error (.blankField (.cpc "H" "" "N" "21") .mainClass) :=
    (hFault _).mpr ⟨[], .cpc "H" "" "N" "21", [.uspc "", .uspc "705"], rfl, rfl, by simp⟩
  have hGood : (compile good).1 = .ok s := compile_eq_ok_iff.mpr ⟨by decide, rfl⟩
  have hBadSetUp := hSetUp (Screening.ofWanted bad) rfl
  rw [hBad] at hBadSetUp
  exact ⟨hBad, hBadSetUp, hGood, (hQueries s hGood).2.1⟩

end QuerySet

end PatentFilter

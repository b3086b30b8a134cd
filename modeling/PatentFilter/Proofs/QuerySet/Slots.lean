import Mathlib.Data.List.Forall2
import PatentFilter.QuerySet.Basic

/-!
# The table of slots

Row by row and slot by slot, the table leads each test to the path that the test reads. Tables only
grow at their end, so a slot given out once stays right.
-/

namespace PatentFilter

/-- A list of codes is built as long as none has a fault, and fails with the first fault. -/
theorem Query.mapM_ofCode (codes : List Code) :
    codes.mapM Query.ofCode =
      match codes.findSome? Code.fault? with
      | some fault => .error fault
      | none => .ok (codes.map Query.ofSound) := by
  induction codes with
  | nil => rfl
  | cons c cs ih =>
    rw [List.mapM_cons, ih, List.findSome?_cons, ofCode]
    cases c.fault? with
    | some fault => rfl
    | none => cases cs.findSome? Code.fault? <;> rfl

theorem Query.mapM_ofCode_eq_error_iff {codes : List Code} {fault : CodeFault} :
    codes.mapM Query.ofCode = .error fault ↔
      ∃ earlier c later, codes = earlier ++ c :: later ∧
        Query.ofCode c = .error fault ∧ ∀ b ∈ earlier, ∃ q, Query.ofCode b = .ok q := by
  have hFirst : codes.mapM Query.ofCode = .error fault ↔
      codes.findSome? Code.fault? = some fault := by
    rw [mapM_ofCode]
    cases codes.findSome? Code.fault? <;> simp
  simp only [hFirst, List.findSome?_eq_some_iff, ofCode_eq_error_iff, exists_ofCode_eq_ok_iff]

namespace QuerySet

theorem mem_compileOrder {wanted : List Code} {c : Code} :
    c ∈ compileOrder wanted ↔ c ∈ wanted := by
  cases h : c.scheme <;> simp [compileOrder, Code.ofScheme, h]

theorem fst_compile (wanted : List Code) :
    (compile wanted).1 = ((compileOrder wanted).mapM Query.ofCode).map ofQueries := by
  rw [← fst_build, compile]
  split
  · next f log hBuild => rw [hBuild]; rfl
  · next qs log hBuild => rw [hBuild]; rfl

theorem compile_eq_ok_iff {wanted : List Code} {s : QuerySet} :
    (compile wanted).1 = .ok s ↔
      (∀ c ∈ wanted, c.fault? = none) ∧
        s = ofQueries ((compileOrder wanted).map Query.ofSound) := by
  have hMem : (∀ c ∈ wanted, c.fault? = none) ↔
      (compileOrder wanted).findSome? Code.fault? = none := by
    simp only [List.findSome?_eq_none_iff, mem_compileOrder]
  rw [hMem, fst_compile, Query.mapM_ofCode]
  cases (compileOrder wanted).findSome? Code.fault? <;> simp [Except.map, eq_comm]

/-- The sets that come from compiling and from pushing built queries. -/
inductive Reachable : QuerySet → Prop
  | empty : Reachable empty
  | compile {wanted : List Code} {s : QuerySet} (h : (compile wanted).1 = .ok s) : Reachable s
  | push {s : QuerySet} {c : Code} {q : Query} (hs : Reachable s) (hq : Query.ofCode c = .ok q) :
    Reachable (s.push q)

/-- What holds of the empty set and is kept by every push holds of the set of any queries. -/
theorem ofQueries_induction {P : QuerySet → Prop} (hEmpty : P empty)
    (hPush : ∀ s q, P s → P (s.push q)) (qs : List Query) : P (ofQueries qs) :=
  List.foldlRecOn qs push hEmpty fun s hs q _ => hPush s q hs

/-- Compiling only pushes, so it keeps what every push keeps. -/
theorem Reachable.of_push {P : QuerySet → Prop} (hEmpty : P .empty)
    (hPush : ∀ s q, P s → P (s.push q)) {s : QuerySet} (h : s.Reachable) : P s := by
  induction h with
  | empty => exact hEmpty
  | compile h =>
    rw [(compile_eq_ok_iff.mp h).2]
    exact ofQueries_induction hEmpty hPush _
  | push _ _ ih => exact hPush _ _ ih

theorem Reachable.built {s : QuerySet} (h : s.Reachable) :
    ∀ q ∈ s.queries, ∃ c, Query.ofCode c = .ok q := by
  induction h with
  | empty => simp [QuerySet.empty]
  | compile h =>
    obtain ⟨hAll, rfl⟩ := compile_eq_ok_iff.mp h
    rw [queries_ofQueries, List.forall_mem_map]
    intro c hc
    exact ⟨c, Query.ofCode_eq_ok_iff.mpr ⟨hAll c (mem_compileOrder.mp hc), rfl⟩⟩
  | push _ hq ih =>
    intro q hMem
    rcases List.mem_append.mp hMem with hOld | hNew
    · exact ih q hOld
    · rw [List.mem_singleton.mp hNew]
      exact ⟨_, hq⟩

/-- One row for each query, one slot for each test, and at each slot the path that the test
reads. -/
def Indexed (s : QuerySet) : Prop :=
  List.Forall₂ (fun q row =>
      List.Forall₂ (fun t slot => s.paths[slot]? = some (q.valuePath t)) q.tests row)
    s.queries s.slots

theorem getElem?_of_isPrefix {paths paths' : List Markup.Path} {i : Nat} {p : Markup.Path}
    (h : paths <+: paths') (hp : paths[i]? = some p) : paths'[i]? = some p := by
  obtain ⟨rest, rfl⟩ := h
  rw [List.getElem?_append_left (List.getElem?_eq_some_iff.mp hp).1, hp]

theorem prefix_slotsOf (paths ps : List Markup.Path) : paths <+: (slotsOf paths ps).1 := by
  induction ps generalizing paths with
  | nil => exact List.prefix_rfl
  | cons p ps ih => exact (prefix_slotOf paths p).trans (ih _)

theorem forall₂_slotsOf (paths ps : List Markup.Path) :
    List.Forall₂ (fun p slot => (slotsOf paths ps).1[slot]? = some p) ps (slotsOf paths ps).2 := by
  induction ps generalizing paths with
  | nil => exact .nil
  | cons p ps ih =>
    exact .cons (getElem?_of_isPrefix (prefix_slotsOf _ ps) (getElem?_slotOf paths p)) (ih _)

theorem Indexed.push {s : QuerySet} (h : s.Indexed) (q : Query) : (s.push q).Indexed := by
  refine List.rel_append ?_ (.cons ?_ .nil)
  · refine h.imp fun r row hRow => hRow.imp fun t slot hSlot => ?_
    exact getElem?_of_isPrefix (prefix_slotsOf ..) hSlot
  · exact List.forall₂_map_left_iff.mp (forall₂_slotsOf s.paths (q.tests.map q.valuePath))

theorem Reachable.indexed {s : QuerySet} (h : s.Reachable) : s.Indexed :=
  h.of_push .nil fun _ q hs => hs.push q

end QuerySet

end PatentFilter

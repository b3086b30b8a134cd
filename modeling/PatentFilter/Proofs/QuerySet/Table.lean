import Mathlib.Algebra.BigOperators.Group.Finset.Basic
import PatentFilter.Proofs.QuerySet.FirstFit
import PatentFilter.QuerySet.Shelf

/-!
# The table of paths

However a set came about, its table holds the paths that its tests read, each once and in the order
of their first use, and the slots lead each test to its path. The table and the slots are settled by
the queries, so sets are equal as soon as their queries are.
-/

namespace PatentFilter

/-- The paths that the tests of a query read. -/
def Query.reads (q : Query) : List Markup.Path :=
  q.tests.map q.valuePath

/-- The paths that the queries of a scheme read. -/
def Scheme.fieldPaths (s : Scheme) : List Markup.Path :=
  s.layout.places.map fun p => s.layout.anchor.extend [p.element, p.textElement]

theorem Query.reads_of_built {c : Code} {q : Query} (h : Query.ofCode c = .ok q) :
    q.reads = q.scheme.fieldPaths := by
  obtain ⟨_, rfl⟩ := Query.ofCode_eq_ok_iff.mp h
  simp [reads, ofSound, Scheme.fieldPaths, scheme, valuePath, Function.comp_def]

namespace QuerySet

def reads (s : QuerySet) : List Markup.Path :=
  s.queries.flatMap Query.reads

/-- The table holds what is used, in the order of the first uses. -/
structure FirstUses (uses paths : List Markup.Path) : Prop where
  mem_iff : ∀ p, p ∈ paths ↔ p ∈ uses
  order : paths.Pairwise fun p p' => uses.idxOf p < uses.idxOf p'

theorem FirstUses.nodup {uses paths : List Markup.Path} (h : FirstUses uses paths) : paths.Nodup :=
  h.order.imp fun hLt hEq => absurd (congrArg uses.idxOf hEq) (Nat.ne_of_lt hLt)

theorem firstUses_nil : FirstUses [] [] := ⟨fun _ => Iff.rfl, .nil⟩

/-- One more use adds a path at the end of the table, unless it is there. -/
theorem FirstUses.slotOf {uses paths : List Markup.Path} (h : FirstUses uses paths)
    (p : Markup.Path) : FirstUses (uses ++ [p]) (slotOf paths p).1 := by
  have hOld : paths.Pairwise fun p₁ p₂ => (uses ++ [p]).idxOf p₁ < (uses ++ [p]).idxOf p₂ := by
    refine h.order.imp_of_mem fun hFirst hSecond hLt => ?_
    rwa [List.idxOf_append_of_mem ((h.mem_iff _).mp hFirst),
      List.idxOf_append_of_mem ((h.mem_iff _).mp hSecond)]
  unfold QuerySet.slotOf
  split
  · next i hFound =>
    have hMem : p ∈ paths := by
      obtain ⟨hi, rfl, _⟩ := List.idxOf?_eq_some_iff.mp hFound
      exact List.getElem_mem hi
    refine ⟨fun p' => ?_, hOld⟩
    rw [List.mem_append, List.mem_singleton, h.mem_iff]
    refine ⟨.inl, fun hUse => hUse.elim id ?_⟩
    rintro rfl
    exact (h.mem_iff p').mp hMem
  · next hNone =>
    have hNew : p ∉ uses := by
      rw [← h.mem_iff]
      exact List.idxOf?_eq_none_iff.mp hNone
    refine ⟨fun p' => by simp only [List.mem_append, h.mem_iff], ?_⟩
    rw [List.pairwise_append]
    refine ⟨hOld, List.pairwise_singleton .., fun p₁ hFirst p₂ hLast => ?_⟩
    have hUsed : p₁ ∈ uses := (h.mem_iff p₁).mp hFirst
    rw [List.mem_singleton.mp hLast, List.idxOf_append_of_mem hUsed,
      List.idxOf_append_of_notMem hNew]
    exact Nat.lt_add_right _ (List.idxOf_lt_length_of_mem hUsed)

theorem FirstUses.slotsOf {uses paths : List Markup.Path} (h : FirstUses uses paths)
    (ps : List Markup.Path) : FirstUses (uses ++ ps) (slotsOf paths ps).1 := by
  induction ps generalizing uses paths with
  | nil => rwa [List.append_nil]
  | cons p ps ih =>
    rw [List.append_cons]
    exact ih (h.slotOf p)

theorem FirstUses.push {s : QuerySet} (h : FirstUses s.reads s.paths) (q : Query) :
    FirstUses (s.push q).reads (s.push q).paths := by
  have hReads : (s.push q).reads = s.reads ++ q.reads := by simp [reads, QuerySet.push]
  rw [hReads]
  exact h.slotsOf q.reads

theorem Reachable.firstUses {s : QuerySet} (h : s.Reachable) : FirstUses s.reads s.paths :=
  h.of_push (P := fun s => FirstUses s.reads s.paths) firstUses_nil fun _ q hs => hs.push q

/-- A set is the one that its queries make when they are pushed in their order. -/
theorem Reachable.eq_ofQueries {s : QuerySet} (h : s.Reachable) : s = ofQueries s.queries := by
  refine h.of_push (P := fun s => s = ofQueries s.queries) rfl fun s q ih => ?_
  calc
    s.push q = (ofQueries s.queries).push q := by rw [← ih]
    _ = ofQueries (s.queries ++ [q]) := by rw [ofQueries, ofQueries, List.foldl_concat]

theorem Reachable.eq_iff {s t : QuerySet} (hs : s.Reachable) (ht : t.Reachable) :
    s = t ↔ s.queries = t.queries := by
  refine ⟨congrArg QuerySet.queries, fun h => ?_⟩
  rw [hs.eq_ofQueries, ht.eq_ofQueries, h]

/-! ### Two paths for each scheme -/

theorem card_fieldPaths (s : Scheme) : s.fieldPaths.toFinset.card = 2 := by
  cases s <;> decide

theorem disjoint_fieldPaths {s s' : Scheme} (h : s ≠ s') :
    Disjoint s.fieldPaths.toFinset s'.fieldPaths.toFinset := by
  cases s with
  | cpc =>
    cases s' with
    | cpc => exact absurd rfl h
    | uspc => decide
  | uspc =>
    cases s' with
    | cpc => decide
    | uspc => exact absurd rfl h

theorem Reachable.toFinset_paths {s : QuerySet} (h : s.Reachable) :
    s.paths.toFinset =
      (s.queries.map Query.scheme).toFinset.biUnion fun scheme => scheme.fieldPaths.toFinset := by
  ext p
  simp only [List.mem_toFinset, h.firstUses.mem_iff, reads, List.mem_flatMap, Finset.mem_biUnion,
    List.mem_map, exists_exists_and_eq_and]
  refine exists_congr fun q => and_congr_right fun hq => ?_
  obtain ⟨c, hc⟩ := h.built q hq
  rw [Query.reads_of_built hc]

theorem Reachable.length_paths {s : QuerySet} (h : s.Reachable) :
    s.paths.length = 2 * (s.queries.map Query.scheme).toFinset.card := by
  calc
    s.paths.length = s.paths.toFinset.card := (List.toFinset_card_of_nodup h.firstUses.nodup).symm
    _ = ∑ scheme ∈ (s.queries.map Query.scheme).toFinset, scheme.fieldPaths.toFinset.card := by
      rw [h.toFinset_paths, Finset.card_biUnion]
      exact fun scheme _ scheme' _ hNe => disjoint_fieldPaths hNe
    _ = (s.queries.map Query.scheme).toFinset.card * 2 :=
      Finset.sum_const_nat fun scheme _ => card_fieldPaths scheme
    _ = 2 * (s.queries.map Query.scheme).toFinset.card := Nat.mul_comm ..

/-! ### Every set that can be made -/

/-- The slots are an index of the table: one row for each query, one slot for each test, which
leads to the path of the test. The table has no path twice and none that is not used, it has the
paths in the order of their first use, and two for each scheme. -/
structure Faithful (s : QuerySet) : Prop where
  length_slots : s.slots.length = s.queries.length
  row : ∀ (i : Nat) (q : Query), s.queries[i]? = some q →
    ∃ row : List Nat, s.slots[i]? = some row ∧ row.length = q.tests.length ∧
      ∀ (j : Nat) (t : FieldTest), q.tests[j]? = some t →
        ∃ slot, row[j]? = some slot ∧ slot < s.paths.length ∧ s.paths[slot]? = some (q.valuePath t)
  nodup : s.paths.Nodup
  used : ∀ slot, slot < s.paths.length → ∃ row ∈ s.slots, slot ∈ row
  order : s.paths.Pairwise fun p p' => s.reads.idxOf p < s.reads.idxOf p'
  length_paths : s.paths.length = 2 * (s.queries.map Query.scheme).toFinset.card

theorem Reachable.faithful {s : QuerySet} (h : s.Reachable) : s.Faithful where
  length_slots := h.indexed.length_eq.symm
  row i q hq := by
    obtain ⟨row, hRow, hTests⟩ := exists_getElem?_of_forall₂ h.indexed hq
    refine ⟨row, hRow, hTests.length_eq.symm, fun j t ht => ?_⟩
    obtain ⟨slot, hSlot, hPath⟩ := exists_getElem?_of_forall₂ hTests ht
    exact ⟨slot, hSlot, (List.getElem?_eq_some_iff.mp hPath).1, hPath⟩
  nodup := h.firstUses.nodup
  used slot hLt := by
    -- the path in the slot is read by a test, whose own slot can only be this one
    have hUse : s.paths[slot] ∈ s.reads := (h.firstUses.mem_iff _).mp (List.getElem_mem hLt)
    obtain ⟨q, hq, hReads⟩ := List.mem_flatMap.mp hUse
    obtain ⟨t, ht, hPath⟩ := List.mem_map.mp hReads
    obtain ⟨i, hi⟩ := List.mem_iff_getElem?.mp hq
    obtain ⟨j, hj⟩ := List.mem_iff_getElem?.mp ht
    obtain ⟨row, slot', hRow, hSlot, hAt⟩ := h.indexed.slots_inRange hi hj
    have hSame : slot = slot' := by
      rw [hPath, ← List.getElem?_eq_getElem hLt] at hAt
      exact (List.getElem?_inj hLt h.firstUses.nodup).mp hAt.symm
    rw [hSame]
    exact ⟨row, List.mem_of_getElem? hRow, List.mem_of_getElem? hSlot⟩
  order := h.firstUses.order
  length_paths := h.length_paths

end QuerySet

namespace Shelf

theorem reachable_step {sets : Shelf} (h : ∀ s ∈ sets, s.Reachable) (slot : Nat)
    (c : ShelfCommand) : ∀ s ∈ (sets.step slot c).1, s.Reachable := by
  have hSet : ∀ made : QuerySet, made.Reachable → ∀ s ∈ sets.set slot made, s.Reachable := by
    intro made hMade s hs
    rcases List.mem_or_eq_of_mem_set hs with hOld | rfl
    · exact h s hOld
    · exact hMade
  cases hSlot : sets[slot]? with
  | none => simpa [step, hSlot] using h
  | some s =>
    have hReachable : s.Reachable := h s (List.mem_of_getElem? hSlot)
    cases c with
    | new => simpa [step, hSlot] using hSet _ .empty
    | compile wanted =>
      cases hCompile : (QuerySet.compile wanted).1 with
      | error f => simpa [step, hSlot, hCompile] using h
      | ok compiled => simpa [step, hSlot, hCompile] using hSet _ (.compile hCompile)
    | push code =>
      cases hBuilt : Query.ofCode code with
      | error f => simpa [step, hSlot, hBuilt] using h
      | ok q => simpa [step, hSlot, hBuilt] using hSet _ (hReachable.push hBuilt)
    | clone =>
      intro t ht
      simp only [step, hSlot, List.mem_append, List.mem_singleton] at ht
      rcases ht with hOld | rfl
      · exact h t hOld
      · exact hReachable

theorem reachable_run {sets : Shelf} (h : ∀ s ∈ sets, s.Reachable)
    (cs : List (Nat × ShelfCommand)) : ∀ s ∈ sets.run cs, s.Reachable := by
  induction cs generalizing sets with
  | nil => exact h
  | cons c cs ih => exact ih (reachable_step h c.1 c.2)

theorem reachable_opening : ∀ s ∈ opening, s.Reachable := by
  intro s hs
  rw [List.mem_singleton.mp hs]
  exact .empty

/-- In every slot, after any run, stands a set with a faithful table. Sets of any two runs are equal,
tables and slots included, exactly if their queries are. -/
theorem faithful_of_run (cs : List (Nat × ShelfCommand)) (s : QuerySet)
    (hs : s ∈ opening.run cs) :
    s.Faithful ∧
      ∀ (cs' : List (Nat × ShelfCommand)) (t : QuerySet), t ∈ opening.run cs' →
        (s = t ↔ s.queries = t.queries) := by
  have hReachable := reachable_run reachable_opening cs s hs
  exact ⟨hReachable.faithful, fun cs' t ht =>
    hReachable.eq_iff (reachable_run reachable_opening cs' t ht)⟩

/-- A compiled set is copied, and query by query the copy grows; the same queries pushed onto an
empty set make the same table. -/
theorem faithful_of_run_copied :
    let grown : List (Nat × ShelfCommand) := [(0, .compile [.uspc "705", .cpc "H" "04" "N" "21"]),
      (0, .clone), (1, .push (.uspc "706")), (1, .push (.cpc "H" "04" "N" "21"))]
    let pushed : List (Nat × ShelfCommand) := [(0, .push (.cpc "H" "04" "N" "21")),
      (0, .push (.uspc "705")), (0, .push (.uspc "706")), (0, .push (.uspc "")),
      (0, .push (.cpc "H" "04" "N" "21"))]
    let s := QuerySet.ofQueries [.ofSound (.cpc "H" "04" "N" "21"), .ofSound (.uspc "705"),
      .ofSound (.uspc "706"), .ofSound (.cpc "H" "04" "N" "21")]
    s ∈ opening.run grown ∧ s ∈ opening.run pushed ∧ s.Faithful ∧ s.paths.length = 4 ∧
      ∀ t ∈ opening.run grown, t.queries = s.queries → s = t := by
  intro grown pushed s
  have hGrown : s ∈ opening.run grown := by decide +kernel
  obtain ⟨hFaithful, hEq⟩ := faithful_of_run grown s hGrown
  exact ⟨hGrown, by decide +kernel, hFaithful, by decide +kernel,
    fun t ht hQueries => (hEq grown t ht).mpr hQueries.symm⟩

end Shelf

end PatentFilter

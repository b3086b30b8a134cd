import Mathlib.Data.Prod.Lex
import PatentFilter.Proofs.Markup.Separation
import PatentFilter.Proofs.QuerySet.Slots
import PatentFilter.QuerySet.Evaluate

/-!
# The first fit

A set of queries reads a document once for all its tests and looks the values up by slot. What it
finds is what a search with a pass of its own for every test finds: of all positions of query, test
and value, the lexicographically first one whose value the test accepts.
-/

namespace PatentFilter

/-- The values that a test looks at, read in a pass of their own. -/
def Query.valuesFor (q : Query) (t : FieldTest) (document : String) : List String :=
  (Markup.collect [q.valuePath t] document).getD 0 []

namespace QuerySet

theorem find?_eq_some_iff_first {α : Type} {p : α → Bool} {l : List α} {a : α} :
    l.find? p = some a ↔
      ∃ k : Nat, l[k]? = some a ∧ p a = true ∧
        ∀ (j : Nat) b, j < k → l[j]? = some b → p b = false := by
  rw [List.find?_eq_some_iff_getElem]
  constructor
  · rintro ⟨hp, k, hk, rfl, hBefore⟩
    refine ⟨k, List.getElem?_eq_getElem hk, hp, fun j b hj hb => ?_⟩
    obtain ⟨_, rfl⟩ := List.getElem?_eq_some_iff.mp hb
    simpa using hBefore j hj
  · rintro ⟨k, hk, hp, hBefore⟩
    obtain ⟨hLt, rfl⟩ := List.getElem?_eq_some_iff.mp hk
    refine ⟨hp, k, hLt, rfl, fun j hj => ?_⟩
    simpa using hBefore j _ hj (List.getElem?_eq_getElem (hj.trans hLt))

theorem findSome?_zipIdx_eq_some_iff {α β : Type} {f : α × Nat → Option β} {l : List α} {b : β}
    {n : Nat} :
    (l.zipIdx n).findSome? f = some b ↔
      ∃ (i : Nat) (a : α), l[i]? = some a ∧ f (a, n + i) = some b ∧
        ∀ (j : Nat) (c : α), j < i → l[j]? = some c → f (c, n + j) = none := by
  induction l generalizing n with
  | nil => simp
  | cons x xs ih =>
    rw [List.zipIdx_cons, List.findSome?_cons]
    cases hx : f (x, n) with
    | some y =>
      constructor
      · rintro ⟨⟩
        exact ⟨0, x, rfl, hx, fun j c hj => absurd hj (Nat.not_lt_zero j)⟩
      · rintro ⟨i, a, ha, hf, hBefore⟩
        cases i with
        | zero =>
          obtain rfl := Option.some.inj ha
          rw [Nat.add_zero, hx] at hf
          exact hf
        | succ i =>
          have hNone := hBefore 0 x (Nat.succ_pos i) rfl
          rw [Nat.add_zero, hx] at hNone
          cases hNone
    | none =>
      rw [ih]
      constructor
      · rintro ⟨i, a, ha, hf, hBefore⟩
        refine ⟨i + 1, a, ha, by rwa [← Nat.add_assoc, Nat.add_right_comm], fun j c hj hc => ?_⟩
        cases j with
        | zero =>
          obtain rfl := Option.some.inj hc
          exact hx
        | succ j =>
          rw [← Nat.add_assoc, Nat.add_right_comm]
          exact hBefore j c (Nat.lt_of_succ_lt_succ hj) hc
      · rintro ⟨i, a, ha, hf, hBefore⟩
        cases i with
        | zero =>
          obtain rfl := Option.some.inj ha
          rw [Nat.add_zero, hx] at hf
          cases hf
        | succ i =>
          refine ⟨i, a, ha, by rwa [Nat.add_right_comm, Nat.add_assoc], fun j c hj hc => ?_⟩
          rw [Nat.add_right_comm, Nat.add_assoc]
          exact hBefore (j + 1) c (Nat.succ_lt_succ hj) hc

theorem findSome?_zip_zipIdx {α β γ : Type} {R : α → β → Prop} {f : (α × β) × Nat → Option γ}
    {g : α × Nat → Option γ} {as : List α} {bs : List β} (h : List.Forall₂ R as bs)
    (hfg : ∀ a b n, R a b → f ((a, b), n) = g (a, n)) (n : Nat) :
    ((as.zip bs).zipIdx n).findSome? f = (as.zipIdx n).findSome? g := by
  induction h generalizing n with
  | nil => rfl
  | cons hHead _ ih =>
    rw [List.zip_cons_cons, List.zipIdx_cons, List.zipIdx_cons, List.findSome?_cons,
      List.findSome?_cons, hfg _ _ n hHead, ih]

/-- The first hit of one query, each of its tests with a pass of its own. -/
def plainHit? (document : String) (i : Nat) (q : Query) : Option Hit :=
  q.tests.zipIdx.findSome? fun (t, j) =>
    ((q.valuesFor t document).find? t.accepts).map fun v => ⟨i, j, t.place.location, v⟩

theorem collect_slot {s : QuerySet} {slot : Nat} {q : Query} {t : FieldTest}
    (h : s.paths[slot]? = some (q.valuePath t)) (document : String) :
    (Markup.collect s.paths document).getD slot [] = q.valuesFor t document := by
  rw [Markup.collect_eq_map, List.getD_eq_getElem?_getD, List.getElem?_map, h]
  rfl

theorem Indexed.evaluate_eq {s : QuerySet} (h : s.Indexed) (document : String) :
    s.evaluate document = s.queries.zipIdx.findSome? fun (q, i) => plainHit? document i q := by
  have hSearch : s.evaluate document = (s.queries.zip s.slots).zipIdx.findSome? fun entry =>
      hitOf? (Markup.collect s.paths document) entry.2 entry.1.1 entry.1.2 := by
    unfold evaluate
    split
    · next hEmpty => rw [List.isEmpty_iff.mp hEmpty, List.zip_nil_left]; rfl
    · rfl
  rw [hSearch]
  refine findSome?_zip_zipIdx h (fun q row i hRow => ?_) 0
  refine findSome?_zip_zipIdx hRow (fun t slot j hSlot => ?_) 0
  simp only [collect_slot hSlot]

theorem plainHit?_eq_none_iff {document : String} {i : Nat} {q : Query} :
    plainHit? document i q = none ↔
      ∀ t ∈ q.tests, ∀ v ∈ q.valuesFor t document, t.accepts v = false := by
  simp only [plainHit?, List.findSome?_eq_none_iff, Option.map_eq_none_iff, List.find?_eq_none,
    Prod.forall, List.mem_zipIdx_iff_getElem?, Bool.not_eq_true]
  constructor
  · intro h t ht
    obtain ⟨j, hj⟩ := List.mem_iff_getElem?.mp ht
    exact h t j hj
  · intro h t j hj
    exact h t (List.mem_of_getElem? hj)

theorem plainHit?_eq_some_iff {document : String} {i : Nat} {q : Query} {h : Hit} :
    plainHit? document i q = some h ↔
      h.query = i ∧ ∃ t, q.tests[h.test]? = some t ∧ h.location = t.place.location ∧
        (q.valuesFor t document).find? t.accepts = some h.value ∧
        ∀ j t', j < h.test → q.tests[j]? = some t' →
          ∀ v ∈ q.valuesFor t' document, t'.accepts v = false := by
  rw [plainHit?, findSome?_zipIdx_eq_some_iff]
  simp only [Nat.zero_add, Option.map_eq_some_iff, Option.map_eq_none_iff, List.find?_eq_none,
    Bool.not_eq_true]
  constructor
  · rintro ⟨j, t, ht, ⟨v, hv, rfl⟩, hBefore⟩
    exact ⟨rfl, t, ht, rfl, hv, hBefore⟩
  · rintro ⟨rfl, t, ht, hLocation, hv, hBefore⟩
    exact ⟨h.test, t, ht, ⟨h.value, hv, by rw [← hLocation]⟩, hBefore⟩

variable {s : QuerySet}

theorem Indexed.evaluate_eq_none_iff (hs : s.Indexed) {document : String} :
    s.evaluate document = none ↔
      ∀ q ∈ s.queries, ∀ t ∈ q.tests, ∀ v ∈ q.valuesFor t document, t.accepts v = false := by
  simp only [hs.evaluate_eq, List.findSome?_eq_none_iff, plainHit?_eq_none_iff, Prod.forall,
    List.mem_zipIdx_iff_getElem?]
  constructor
  · intro h q hq
    obtain ⟨i, hi⟩ := List.mem_iff_getElem?.mp hq
    exact h q i hi
  · intro h q i hi
    exact h q (List.mem_of_getElem? hi)

theorem Indexed.evaluate_eq_some_iff (hs : s.Indexed) {document : String} {h : Hit} :
    s.evaluate document = some h ↔
      ∃ q t, s.queries[h.query]? = some q ∧ q.tests[h.test]? = some t ∧
        h.location = t.place.location ∧
        (q.valuesFor t document).find? t.accepts = some h.value ∧
        (∀ j t', j < h.test → q.tests[j]? = some t' →
          ∀ v ∈ q.valuesFor t' document, t'.accepts v = false) ∧
        ∀ i q', i < h.query → s.queries[i]? = some q' →
          ∀ t' ∈ q'.tests, ∀ v ∈ q'.valuesFor t' document, t'.accepts v = false := by
  rw [hs.evaluate_eq, findSome?_zipIdx_eq_some_iff]
  simp only [Nat.zero_add, plainHit?_eq_none_iff, plainHit?_eq_some_iff]
  constructor
  · rintro ⟨i, q, hq, ⟨rfl, t, ht, hLocation, hv, hTests⟩, hQueries⟩
    exact ⟨q, t, hq, ht, hLocation, hv, hTests, hQueries⟩
  · rintro ⟨q, t, hq, ht, hLocation, hv, hTests, hQueries⟩
    exact ⟨h.query, q, hq, ⟨rfl, t, ht, hLocation, hv, hTests⟩, hQueries⟩

/-- At position `(i, j, k)` stand a query of the set, a test of the query and a value that the test
looks at and accepts. -/
structure AcceptsAt (s : QuerySet) (document : String) (q : Query) (t : FieldTest) (v : String)
    (i j k : Nat) : Prop where
  query : s.queries[i]? = some q
  test : q.tests[j]? = some t
  value : (q.valuesFor t document)[k]? = some v
  accepts : t.accepts v = true

/-- A hit tells the lexicographically first position of query, test and value that accepts, with
the location of that test and the value itself. -/
def FirstFit (s : QuerySet) (document : String) (h : Hit) : Prop :=
  ∃ q t k, s.AcceptsAt document q t h.value h.query h.test k ∧ h.location = t.place.location ∧
    ∀ q' t' v i j l, s.AcceptsAt document q' t' v i j l →
      toLex (h.query, toLex (h.test, k)) ≤ toLex (i, toLex (j, l))

theorem lex_le_iff {i j k i' j' k' : Nat} :
    toLex (i, toLex (j, k)) ≤ toLex (i', toLex (j', k')) ↔
      i < i' ∨ i = i' ∧ (j < j' ∨ j = j' ∧ k ≤ k') := by
  rw [Prod.Lex.toLex_le_toLex, Prod.Lex.toLex_le_toLex]

theorem Indexed.evaluate_eq_some_iff_firstFit (hs : s.Indexed) {document : String} {h : Hit} :
    s.evaluate document = some h ↔ s.FirstFit document h := by
  rw [hs.evaluate_eq_some_iff]
  constructor
  · rintro ⟨q, t, hq, ht, hLocation, hv, hTests, hQueries⟩
    obtain ⟨k, hk, hAccepts, hValues⟩ := find?_eq_some_iff_first.mp hv
    refine ⟨q, t, k, ⟨hq, ht, hk, hAccepts⟩, hLocation, fun q' t' v i j l hOther => ?_⟩
    rw [lex_le_iff]
    -- a position before the hit would contradict one of the three searches
    rcases Nat.lt_trichotomy i h.query with hi | rfl | hi
    · have := hQueries i q' hi hOther.query t' (List.mem_of_getElem? hOther.test) v
        (List.mem_of_getElem? hOther.value)
      simp [hOther.accepts] at this
    · obtain rfl := Option.some.inj (hq.symm.trans hOther.query)
      rcases Nat.lt_trichotomy j h.test with hj | rfl | hj
      · have := hTests j t' hj hOther.test v (List.mem_of_getElem? hOther.value)
        simp [hOther.accepts] at this
      · obtain rfl := Option.some.inj (ht.symm.trans hOther.test)
        refine .inr ⟨rfl, .inr ⟨rfl, Nat.le_of_not_lt fun hl => ?_⟩⟩
        have := hValues l v hl hOther.value
        simp [hOther.accepts] at this
      · exact .inr ⟨rfl, .inl hj⟩
    · exact .inl hi
  · rintro ⟨q, t, k, hHit, hLocation, hFirst⟩
    refine ⟨q, t, hHit.query, hHit.test, hLocation, ?_, ?_, ?_⟩
    · refine find?_eq_some_iff_first.mpr ⟨k, hHit.value, hHit.accepts, fun l v hl hv => ?_⟩
      refine Bool.eq_false_iff.mpr fun hAccepts => ?_
      have := lex_le_iff.mp (hFirst q t v _ _ l ⟨hHit.query, hHit.test, hv, hAccepts⟩)
      omega
    · intro j t' hj ht' v hv
      refine Bool.eq_false_iff.mpr fun hAccepts => ?_
      obtain ⟨l, hl⟩ := List.mem_iff_getElem?.mp hv
      have := lex_le_iff.mp (hFirst q t' v _ j l ⟨hHit.query, ht', hl, hAccepts⟩)
      omega
    · intro i q' hi hq' t' ht' v hv
      refine Bool.eq_false_iff.mpr fun hAccepts => ?_
      obtain ⟨j, hj⟩ := List.mem_iff_getElem?.mp ht'
      obtain ⟨l, hl⟩ := List.mem_iff_getElem?.mp hv
      have := lex_le_iff.mp (hFirst q' t' v i j l ⟨hq', hj, hl, hAccepts⟩)
      omega

theorem exists_getElem?_of_forall₂ {α β : Type} {R : α → β → Prop} {as : List α} {bs : List β}
    (h : List.Forall₂ R as bs) {i : Nat} {a : α} (ha : as[i]? = some a) :
    ∃ b, bs[i]? = some b ∧ R a b := by
  induction h generalizing i with
  | nil => simp at ha
  | @cons x y _ _ hHead _ ih =>
    cases i with
    | zero => exact ⟨y, rfl, by rwa [← Option.some.inj ha]⟩
    | succ i => exact ih ha

theorem Indexed.slots_inRange (hs : s.Indexed) {i j : Nat} {q : Query} {t : FieldTest}
    (hq : s.queries[i]? = some q) (ht : q.tests[j]? = some t) :
    ∃ row slot, s.slots[i]? = some row ∧ row[j]? = some slot ∧
      s.paths[slot]? = some (q.valuePath t) := by
  obtain ⟨row, hRow, hTests⟩ := exists_getElem?_of_forall₂ hs hq
  obtain ⟨slot, hSlot, hPath⟩ := exists_getElem?_of_forall₂ hTests ht
  exact ⟨row, slot, hRow, hSlot, hPath⟩

theorem Indexed.exists_firing (hs : s.Indexed) {document : String} {h : Hit}
    (hHit : s.evaluate document = some h) :
    ∃ f, s.firing? h = some f ∧ f.hit = h ∧ s.queries[h.query]? = some f.query ∧
      f.query.tests[h.test]? = some f.test ∧ f.test.place.location = h.location ∧
      f.test.accepts h.value = true := by
  obtain ⟨q, t, hq, ht, hLocation, hv, _⟩ := hs.evaluate_eq_some_iff.mp hHit
  exact ⟨⟨q, t, h⟩, firing?_eq_some_iff.mpr ⟨hq, ht, rfl⟩, rfl, hq, ht, hLocation.symm,
    List.find?_some hv⟩

/-- What the tests of one set find in one pass is the first fit of separate passes, every slot that
is looked up is there, and a hit always leads back to the query and test that fired. -/
theorem evaluate_eq_firstFit (hs : s.Reachable) (document : String) :
    (∀ (i j : Nat) (q : Query) (t : FieldTest), s.queries[i]? = some q → q.tests[j]? = some t →
      ∃ row slot, s.slots[i]? = some row ∧ row[j]? = some slot ∧ slot < s.paths.length) ∧
    (∀ h, s.evaluate document = some h ↔ s.FirstFit document h) ∧
    (s.evaluate document = none ↔
      ∀ q t v i j k, ¬ s.AcceptsAt document q t v i j k) ∧
    ∀ h, s.evaluate document = some h →
      ∃ f, s.firing? h = some f ∧ f.hit = h ∧ s.queries[h.query]? = some f.query ∧
        f.query.tests[h.test]? = some f.test ∧ f.test.place.location = h.location ∧
        f.test.accepts h.value = true := by
  have hIndexed := hs.indexed
  refine ⟨?_, fun h => hIndexed.evaluate_eq_some_iff_firstFit, ?_, fun h => hIndexed.exists_firing⟩
  · intro i j q t hq ht
    obtain ⟨row, slot, hRow, hSlot, hPath⟩ := hIndexed.slots_inRange hq ht
    exact ⟨row, slot, hRow, hSlot, (List.getElem?_eq_some_iff.mp hPath).1⟩
  · rw [hIndexed.evaluate_eq_none_iff]
    constructor
    · intro hNone q t v i j k hAt
      have := hNone q (List.mem_of_getElem? hAt.query) t (List.mem_of_getElem? hAt.test) v
        (List.mem_of_getElem? hAt.value)
      simp [hAt.accepts] at this
    · intro hNone q hq t ht v hv
      obtain ⟨i, hi⟩ := List.mem_iff_getElem?.mp hq
      obtain ⟨j, hj⟩ := List.mem_iff_getElem?.mp ht
      obtain ⟨k, hk⟩ := List.mem_iff_getElem?.mp hv
      exact Bool.eq_false_iff.mpr fun hAccepts => hNone q t v i j k ⟨hi, hj, hk, hAccepts⟩

/-- The second query's second test fires, in a document without end tags. -/
theorem evaluate_eq_firstFit_unfinished :
    let s := (QuerySet.empty.push (.ofSound (.uspc "8"))).push (.ofSound (.uspc "705"))
    let document := "<PATDOC><SDOBI><B500><B520><B522><PDAT>7051"
    let h : Hit := ⟨1, 1, .secondary, "7051"⟩
    s.Reachable ∧ s.evaluate document = some h ∧ s.FirstFit document h ∧
      ∃ f, s.firing? h = some f ∧ f.test.accepts "7051" = true := by
  intro s document h
  have hReachable : s.Reachable := .push (c := .uspc "705") (.push (c := .uspc "8") .empty rfl) rfl
  have hHit : s.evaluate document = some h := by decide +kernel
  obtain ⟨_, hFit, _, hFires⟩ := evaluate_eq_firstFit hReachable document
  obtain ⟨f, hFiring, _, _, _, _, hAccepts⟩ := hFires h hHit
  exact ⟨hReachable, hHit, (hFit h).mp hHit, f, hFiring, hAccepts⟩

end QuerySet

end PatentFilter

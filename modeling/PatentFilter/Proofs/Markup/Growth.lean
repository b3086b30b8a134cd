import Mathlib.Data.List.ModifyLast
import PatentFilter.Proofs.Markup.Reading

/-!
# Steps of a growing forest

Each step is described by what it does to the values at a path. Two questions about the open
elements decide: whether text now belongs to the last value (`feeds`), and whether the open parent
at the path already has its child (`seen`). Closing elements changes no tree, only the answers.
-/

namespace PatentFilter.Markup.Growth

/-- Closes the open elements below the given depth. -/
def cut : Nat → Growth → Growth
  | _, top trees => top trees
  | 0, inside earlier n inner => top (earlier ++ [.element n inner.forest])
  | k + 1, inside earlier n inner => inside earlier n (inner.cut k)

/-- Whether an open element is one of those that count at the path. -/
def feeds (once : Bool) : List String → String → Growth → Bool
  | _, _, top _ => false
  | [], name, inside earlier n _ => n == name && !barred once name earlier
  | m :: above, name, inside _ n inner => n == m && feeds once above name inner

/-- Whether the open element with the names above has a child, open or not, after which no other
one counts. -/
def seen (once : Bool) : List String → String → Growth → Bool
  | [], name, top trees => barred once name trees
  | [], name, inside earlier n _ => barred once name earlier || (once && n == name)
  | _ :: _, _, top _ => false
  | m :: above, name, inside _ n inner => n == m && seen once above name inner

@[simp] theorem names_addText (s : String) (g : Growth) : (g.addText s).names = g.names := by
  induction g with
  | top trees => rfl
  | inside earlier n inner ih => simp only [addText, names, ih]

@[simp] theorem names_openElement (name : String) (g : Growth) :
    (g.openElement name).names = g.names ++ [name] := by
  induction g with
  | top trees => rfl
  | inside earlier n inner ih => simp only [openElement, names, ih, List.cons_append]

@[simp] theorem names_cut (k : Nat) (g : Growth) : (g.cut k).names = g.names.take k := by
  induction g generalizing k with
  | top trees => simp [cut, names]
  | inside earlier n inner ih => cases k <;> simp [cut, names, ih]

@[simp] theorem forest_cut (k : Nat) (g : Growth) : (g.cut k).forest = g.forest := by
  induction g generalizing k with
  | top trees => simp [cut, forest]
  | inside earlier n inner ih => cases k <;> simp [cut, forest, ih]

theorem cut_cut {k l : Nat} (h : k ≤ l) (g : Growth) : (g.cut l).cut k = g.cut k := by
  induction g generalizing k l with
  | top trees => simp only [cut]
  | inside earlier n inner ih =>
    cases l with
    | zero =>
      obtain rfl := Nat.le_zero.mp h
      rfl
    | succ l =>
      cases k with
      | zero => simp only [cut, forest_cut]
      | succ k => simp only [cut, ih (Nat.le_of_succ_le_succ h)]

theorem closeElement_of_notMem {name : String} {g : Growth} (h : name ∉ g.names) :
    g.closeElement name = g := by
  cases g with
  | top trees => rfl
  | inside earlier n inner =>
    simp only [names, List.mem_cons, not_or] at h
    rw [closeElement, if_neg h.2, if_neg (Ne.symm h.1)]

theorem closeElement_eq_cut {outer inner : List String} {name : String} {g : Growth}
    (hNames : g.names = outer ++ name :: inner) (hLast : name ∉ inner) :
    g.closeElement name = g.cut outer.length := by
  induction g generalizing outer with
  | top trees => simp [names] at hNames
  | inside earlier n rest ih =>
    rw [names] at hNames
    cases outer with
    | nil =>
      obtain ⟨rfl, rfl⟩ := List.cons.inj hNames
      rw [closeElement, if_neg hLast, if_pos rfl]
      rfl
    | cons m outer =>
      obtain ⟨rfl, hRest⟩ := List.cons.inj hNames
      have hMem : name ∈ rest.names := by simp [hRest]
      rw [closeElement, if_pos hMem, ih hRest]
      rfl

variable {once : Bool} {above : List String} {name : String}

@[simp] theorem feeds_addText (s : String) (g : Growth) :
    (g.addText s).feeds once above name = g.feeds once above name := by
  induction g generalizing above with
  | top trees => cases above <;> rfl
  | inside earlier n inner ih => cases above <;> simp [addText, feeds, ih]

@[simp] theorem seen_addText (s : String) (g : Growth) :
    (g.addText s).seen once above name = g.seen once above name := by
  induction g generalizing above with
  | top trees => cases above <;> simp [addText, seen, barred_append_text]
  | inside earlier n inner ih => cases above <;> simp [addText, seen, ih]

theorem length_lt_of_feeds {g : Growth} (h : g.feeds once above name = true) :
    above.length < g.names.length := by
  induction g generalizing above with
  | top trees => simp [feeds] at h
  | inside earlier n inner ih =>
    cases above with
    | nil => simp [names]
    | cons m above =>
      simp only [feeds, Bool.and_eq_true] at h
      exact Nat.succ_lt_succ (ih h.2)

theorem length_le_of_seen {g : Growth} (h : g.seen once above name = true) :
    above.length ≤ g.names.length := by
  induction g generalizing above with
  | top trees => cases above <;> simp_all [seen]
  | inside earlier n inner ih =>
    cases above with
    | nil => exact Nat.zero_le _
    | cons m above =>
      simp only [seen, Bool.and_eq_true] at h
      exact Nat.succ_le_succ (ih h.2)

theorem seen_of_length_lt {g : Growth} (h : g.names.length < above.length) :
    g.seen once above name = false := by
  refine Bool.eq_false_iff.mpr fun hSeen => ?_
  have := length_le_of_seen hSeen
  omega

theorem seen_openElement (n : String) (g : Growth) :
    (g.openElement n).seen once above name =
      (g.seen once above name || (once && decide (g.names = above) && n == name)) := by
  induction g generalizing above with
  | top trees =>
    cases above with
    | nil => simp [openElement, seen, names]
    | cons m above => cases above <;> simp [openElement, seen, names, barred]
  | inside earlier k inner ih =>
    cases above with
    | nil => simp [openElement, seen, names]
    | cons m above =>
      simp only [openElement, seen, names, ih, List.cons.injEq]
      by_cases h : k = m
      · simp [h]
      · simp [h, beq_eq_false_iff_ne.mpr h]

theorem seen_openElement_of_new {n : String} {g : Growth} (hNames : g.names ++ [n] = above) :
    (g.openElement n).seen once above name = false := by
  have hLength : above.length = g.names.length + 1 := by simp [← hNames]
  have hSeen : g.seen once above name = false := seen_of_length_lt (by omega)
  have hAt : g.names ≠ above := fun hEq => by
    rw [hEq] at hLength
    omega
  rw [seen_openElement]
  simp [hSeen, hAt]

theorem feeds_openElement (n : String) (g : Growth) :
    (g.openElement n).feeds once above name =
      (g.feeds once above name ||
        (decide (g.names = above) && n == name && !g.seen once above name)) := by
  induction g generalizing above with
  | top trees => cases above <;> simp [openElement, feeds, seen, names]
  | inside earlier k inner ih =>
    cases above with
    | nil => simp [openElement, feeds, names]
    | cons m above =>
      simp only [openElement, feeds, seen, names, ih, List.cons.injEq]
      by_cases h : k = m
      · simp [h]
      · simp [h, beq_eq_false_iff_ne.mpr h]

theorem feeds_cut (k : Nat) (g : Growth) :
    (g.cut k).feeds once above name = (g.feeds once above name && decide (above.length < k)) := by
  induction g generalizing above k with
  | top trees => simp [cut, feeds]
  | inside earlier n inner ih =>
    cases k with
    | zero => simp [cut, feeds]
    | succ k =>
      cases above with
      | nil => simp [cut, feeds]
      | cons m above => simp [cut, feeds, ih, Bool.and_assoc]

theorem seen_cut {k : Nat} (hk : above.length ≤ k) (g : Growth) :
    (g.cut k).seen once above name = g.seen once above name := by
  induction g generalizing above k with
  | top trees => rw [cut]
  | inside earlier n inner ih =>
    cases k with
    | zero =>
      cases above with
      | nil => rw [cut, seen, seen, barred_append_element]
      | cons m above => simp at hk
    | succ k =>
      cases above with
      | nil => rfl
      | cons m above =>
        rw [cut, seen, seen, ih (Nat.le_of_succ_le_succ hk)]

@[simp] theorem contentOf_forest_openElement (n : String) (g : Growth) :
    contentOf (g.openElement n).forest = contentOf g.forest := by
  induction g with
  | top trees => simp [openElement, forest, contentOf_append, contentOf, Node.content]
  | inside earlier k inner ih =>
    simp [openElement, forest, contentOf_append, contentOf, Node.content, ih]

@[simp] theorem contentOf_forest_addText (s : String) (g : Growth) :
    contentOf (g.addText s).forest = contentOf g.forest ++ s := by
  induction g with
  | top trees => simp [addText, forest, contentOf_append, contentOf, Node.content]
  | inside earlier k inner ih =>
    simp [addText, forest, contentOf_append, contentOf, Node.content, ih, String.append_assoc]

theorem readAt_openElement (n : String) (g : Growth) :
    readAt once above name (g.openElement n).forest =
      readAt once above name g.forest ++
        if decide (g.names = above) && n == name && !g.seen once above name then [""] else [] := by
  induction g generalizing above with
  | top trees =>
    cases above with
    | nil => simp [openElement, forest, readAt_nil_append_element, names, seen, contentOf]
    | cons m above =>
      simp only [openElement, forest, readAt_cons_append_element, names]
      cases above <;> simp [readAt, chosen]
  | inside earlier k inner ih =>
    cases above with
    | nil => simp [openElement, forest, readAt_nil_append_element, names]
    | cons m above =>
      simp only [openElement, forest, readAt_cons_append_element, names, seen, ih,
        List.append_assoc, List.cons.injEq]
      by_cases h : k = m
      · simp [h]
      · simp [h, beq_eq_false_iff_ne.mpr h]

theorem readAt_addText_of_not_feeds (s : String) {g : Growth}
    (h : g.feeds once above name = false) :
    readAt once above name (g.addText s).forest = readAt once above name g.forest := by
  induction g generalizing above with
  | top trees => exact readAt_append_text ..
  | inside earlier k inner ih =>
    cases above with
    | nil =>
      simp only [feeds] at h
      simp [addText, forest, readAt_nil_append_element, h]
    | cons m above =>
      simp only [addText, forest, readAt_cons_append_element]
      cases hName : k == m with
      | false => rfl
      | true => rw [ih (by simpa [feeds, hName] using h)]

theorem readAt_addText_of_feeds (s : String) {g : Growth}
    (h : g.feeds once above name = true) :
    ∃ front last, readAt once above name g.forest = front ++ [last] ∧
      readAt once above name (g.addText s).forest = front ++ [last ++ s] := by
  induction g generalizing above with
  | top trees => simp [feeds] at h
  | inside earlier k inner ih =>
    cases above with
    | nil =>
      rw [feeds] at h
      refine ⟨readAt once [] name earlier, contentOf inner.forest, ?_, ?_⟩
      · rw [forest, readAt_nil_append_element, if_pos h]
      · rw [addText, forest, readAt_nil_append_element, if_pos h, contentOf_forest_addText]
    | cons m above =>
      simp only [feeds, Bool.and_eq_true] at h
      obtain ⟨front, last, hBefore, hAfter⟩ := ih h.2
      refine ⟨readAt once (m :: above) name earlier ++ front, last, ?_, ?_⟩
      · rw [forest, readAt_cons_append_element, if_pos h.1, hBefore, List.append_assoc]
      · rw [addText, forest, readAt_cons_append_element, if_pos h.1, hAfter, List.append_assoc]

/-- Text goes to the last value, or to none. -/
theorem readAt_addText (s : String) (g : Growth) :
    readAt once above name (g.addText s).forest =
      if g.feeds once above name then (readAt once above name g.forest).modifyLast (· ++ s)
      else readAt once above name g.forest := by
  cases hFeeds : g.feeds once above name with
  | false => exact readAt_addText_of_not_feeds s hFeeds
  | true =>
    obtain ⟨front, last, hBefore, hAfter⟩ := readAt_addText_of_feeds s hFeeds
    rw [if_pos rfl, hBefore, hAfter, List.modifyLast_concat]

end PatentFilter.Markup.Growth

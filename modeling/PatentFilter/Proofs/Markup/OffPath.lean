import PatentFilter.Proofs.Markup.Persistence
import PatentFilter.Proofs.Markup.Rendering

/-!
# Elements off every path

An element that lies on no path to a wanted element, and inside none, leaves no trace in the
values, whatever it holds and whatever follows it. Of the trees read so far the values depend on
little: the open elements, whether text belongs to the last value, and whether the open parent
already has its child. Growths that agree in this much go on agreeing token by token.
-/

namespace PatentFilter.Markup

namespace Growth

/-- The growths show no difference at the path, now or later. -/
structure Agree (once : Bool) (above : List String) (name : String) (g h : Growth) : Prop where
  names : g.names = h.names
  feeds : g.feeds once above name = h.feeds once above name
  seen : g.seen once above name = h.seen once above name
  values : readAt once above name g.forest = readAt once above name h.forest

variable {once : Bool} {above : List String} {name : String} {g h : Growth}

theorem Agree.openElement (hAgree : Agree once above name g h) (n : String) :
    Agree once above name (g.openElement n) (h.openElement n) where
  names := by rw [names_openElement, names_openElement, hAgree.names]
  feeds := by rw [feeds_openElement, feeds_openElement, hAgree.names, hAgree.feeds, hAgree.seen]
  seen := by rw [seen_openElement, seen_openElement, hAgree.names, hAgree.seen]
  values := by
    rw [readAt_openElement, readAt_openElement, hAgree.names, hAgree.seen, hAgree.values]

theorem Agree.addText (hAgree : Agree once above name g h) (s : String) :
    Agree once above name (g.addText s) (h.addText s) where
  names := by rw [names_addText, names_addText, hAgree.names]
  feeds := by rw [feeds_addText, feeds_addText, hAgree.feeds]
  seen := by rw [seen_addText, seen_addText, hAgree.seen]
  values := by rw [readAt_addText, readAt_addText, hAgree.feeds, hAgree.values]

theorem Agree.cut (hAgree : Agree once above name g h) (k : Nat) :
    Agree once above name (g.cut k) (h.cut k) where
  names := by rw [names_cut, names_cut, hAgree.names]
  feeds := by rw [feeds_cut, feeds_cut, hAgree.feeds]
  seen := by
    rcases Nat.lt_or_ge k above.length with hk | hk
    · -- what stays open is too short for a parent at the path
      have hShort : ∀ g : Growth, (g.cut k).names.length < above.length := by
        intro g
        rw [names_cut, List.length_take]
        omega
      rw [seen_of_length_lt (hShort g), seen_of_length_lt (hShort h)]
    · rw [seen_cut hk, seen_cut hk, hAgree.seen]
  values := by rw [forest_cut, forest_cut, hAgree.values]

/-- The names of the open elements decide at which depth an end tag cuts. -/
theorem notMem_or_closeElement_eq_cut (names : List String) (n : String) :
    n ∉ names ∨ ∃ k, ∀ g : Growth, g.names = names → g.closeElement n = g.cut k := by
  by_cases hMem : n ∈ names
  · obtain ⟨inner, outer, hEq, hInner⟩ :=
      List.eq_append_cons_of_mem (List.mem_reverse.mpr hMem)
    have hNames : names = outer.reverse ++ n :: inner.reverse := by
      rw [← List.reverse_reverse names, hEq]
      simp
    have hLast : n ∉ inner.reverse := fun hn => hInner (List.mem_reverse.mp hn)
    exact .inr ⟨outer.reverse.length, fun g hg => closeElement_eq_cut (hg.trans hNames) hLast⟩
  · exact .inl hMem

theorem Agree.closeElement (hAgree : Agree once above name g h) (n : String) :
    Agree once above name (g.closeElement n) (h.closeElement n) := by
  rcases notMem_or_closeElement_eq_cut g.names n with hNone | ⟨k, hCut⟩
  · rw [closeElement_of_notMem hNone, closeElement_of_notMem (hAgree.names ▸ hNone)]
    exact hAgree
  · rw [hCut g rfl, hCut h hAgree.names.symm]
    exact hAgree.cut k

theorem Agree.step (hAgree : Agree once above name g h) (t : Token) :
    Agree once above name (g.step t) (h.step t) := by
  cases t with
  | opening n => exact hAgree.openElement n
  | closing n => exact hAgree.closeElement n
  | text s => exact hAgree.addText s
  | skipped => exact hAgree

theorem Agree.foldl (hAgree : Agree once above name g h) (ts : List Token) :
    Agree once above name (ts.foldl Growth.step g) (ts.foldl Growth.step h) := by
  induction ts generalizing g h with
  | nil => exact hAgree
  | cons t ts ih => exact ih (hAgree.step t)

/-! ### A finished element off the path -/

theorem feeds_addTrees (trees : List Node) (g : Growth) :
    (g.addTrees trees).feeds once above name = g.feeds once above name := by
  induction g generalizing above with
  | top earlier => cases above <;> rfl
  | inside earlier n inner ih => cases above <;> simp [addTrees, feeds, ih]

theorem seen_addTrees_element (n : String) (children : List Node) (g : Growth) :
    (g.addTrees [.element n children]).seen once above name =
      (g.seen once above name || (once && decide (g.names = above) && n == name)) := by
  induction g generalizing above with
  | top earlier => cases above <;> simp [addTrees, seen, names, barred_append_element]
  | inside earlier k inner ih =>
    cases above with
    | nil => simp [addTrees, seen, names]
    | cons m above =>
      simp only [addTrees, seen, names, ih, List.cons.injEq]
      by_cases h : k = m
      · simp [h]
      · simp [h, beq_eq_false_iff_ne.mpr h]

theorem readAt_addTrees_element {n : String} {g : Growth}
    (hOutside : ¬ above ++ [name] <+: g.names) (hOff : ¬ g.names ++ [n] <+: above ++ [name])
    (children : List Node) :
    readAt once above name (g.addTrees [.element n children]).forest =
      readAt once above name g.forest := by
  -- the path loses a name with every open element; where that fails, the path leads elsewhere
  induction g generalizing above with
  | top earlier =>
    cases above with
    | nil =>
      have hName : n ≠ name := by
        rintro rfl
        exact hOff List.prefix_rfl
      simp [addTrees, forest, readAt_nil_append_element, hName]
    | cons m above =>
      have hName : n ≠ m := by
        rintro rfl
        exact hOff (List.prefix_append ..)
      simp [addTrees, forest, readAt_cons_append_element, hName]
  | inside earlier k inner ih =>
    cases above with
    | nil =>
      have hName : k ≠ name := by
        rintro rfl
        exact hOutside ⟨inner.names, rfl⟩
      simp [addTrees, forest, readAt_nil_append_element, hName]
    | cons m above =>
      simp only [addTrees, forest, readAt_cons_append_element]
      by_cases hName : k = m
      · subst hName
        rw [ih (fun hPrefix => hOutside (List.cons_prefix_cons.mpr ⟨rfl, hPrefix⟩))
          (fun hPrefix => hOff (List.cons_prefix_cons.mpr ⟨rfl, hPrefix⟩))]
      · simp [hName]

theorem agree_addTrees_element {n : String} {g : Growth}
    (hOutside : ¬ above ++ [name] <+: g.names) (hOff : ¬ g.names ++ [n] <+: above ++ [name])
    (children : List Node) : Agree once above name (g.addTrees [.element n children]) g where
  names := names_addTrees _ g
  feeds := feeds_addTrees _ g
  seen := by
    have hParent : (decide (g.names = above) && n == name) = false := by
      rw [Bool.eq_false_iff]
      intro hBoth
      simp only [Bool.and_eq_true, decide_eq_true_eq, beq_iff_eq] at hBoth
      obtain ⟨rfl, rfl⟩ := hBoth
      exact hOff List.prefix_rfl
    rw [seen_addTrees_element, Bool.and_assoc, hParent, Bool.and_false, Bool.or_false]
  values := readAt_addTrees_element hOutside hOff children

end Growth

/-- An element of the name that stands inside the given ones, outermost first, lies in no element
at one of the paths and on the way to none. -/
structure LiesOff (paths : List Path) (around : List String) (name : String) : Prop where
  outside : ∀ path ∈ paths, path.names ≠ [] → ¬ path.names <+: around
  off : ∀ path ∈ paths, ¬ around ++ [name] <+: path.names

/-- An element off every path changes no value, whatever it holds. -/
theorem collect_offPath {p : String} (hp : Finished p.toList) (s : String) {paths : List Path}
    (name : TagName) (attributes : Attributes) (children : List Item)
    (h : LiesOff paths (openAfter p) name.text) :
    collect paths (p ++ (Item.element name attributes children).render ++ s) =
      collect paths (p ++ s) := by
  have hElement : ReadAs ((Item.element name attributes children).render ++ s).toList
      ((Item.element name attributes children).tokens ++ tokens s.toList) := by
    rw [String.toList_append]
    exact readAs_itemRender _ (ReadAs.refl s.toList)
  rw [String.append_assoc, hp.collect_append hElement, hp.collect_append (ReadAs.refl s.toList),
    gather_eq_map_valuesAt, gather_eq_map_valuesAt]
  apply List.map_congr_left
  rintro ⟨names⟩ hPath
  rcases List.eq_nil_or_concat names with rfl | ⟨above, last, rfl⟩
  · rfl
  · have hOutside := h.outside _ hPath (by simp)
    have hOff := h.off _ hPath
    rw [← names_foldl_tokens, List.concat_eq_append] at hOutside hOff
    simp only [List.concat_eq_append, valuesAt_concat, forestOf, List.foldl_append,
      Growth.foldl_step_itemTokens]
    exact ((Growth.agree_addTrees_element hOutside hOff _).foldl _).values

/-- The element holds names of the paths at other depths, and stands between two children of which
only the first counts. -/
theorem collect_offPath_nested :
    Finished "<r><a>t<b>u</b>".toList ∧
    LiesOff [⟨["r", "a", "b"]⟩, ⟨["r", "q"]⟩, ⟨[]⟩] (openAfter "<r><a>t<b>u</b>") "c" ∧
    collect [⟨["r", "a", "b"]⟩, ⟨["r", "q"]⟩, ⟨[]⟩]
        "<r><a>t<b>u</b><c><r><b>v</b></r><!--<b>--></c><b>w</a><q>x" =
      collect [⟨["r", "a", "b"]⟩, ⟨["r", "q"]⟩, ⟨[]⟩] "<r><a>t<b>u</b><b>w</a><q>x" := by
  have hFinished : Finished "<r><a>t<b>u</b>".toList := by decide +kernel
  have hOpen : openAfter "<r><a>t<b>u</b>" = ["r", "a"] := by decide +kernel
  have hOff : LiesOff [⟨["r", "a", "b"]⟩, ⟨["r", "q"]⟩, ⟨[]⟩] (openAfter "<r><a>t<b>u</b>") "c" := by
    rw [hOpen]
    exact ⟨by decide, by decide⟩
  have hSame := collect_offPath hFinished "<b>w</a><q>x" ⟨"c", by decide⟩ ⟨"", isAttributes_empty⟩
    [.element ⟨"r", by decide⟩ ⟨"", isAttributes_empty⟩
      [.element ⟨"b", by decide⟩ ⟨"", isAttributes_empty⟩ [.text ⟨"v", by decide⟩]],
      .comment ⟨"<b>", by decide⟩] hOff
  simp only [Item.render, render] at hSame
  exact ⟨hFinished, hOff, hSame⟩

end PatentFilter.Markup

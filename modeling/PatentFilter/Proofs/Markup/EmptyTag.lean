import Mathlib.Data.List.Forall2
import PatentFilter.Proofs.Markup.OffPath

/-!
# Empty elements

An empty element may be written as one tag or as two. As one tag it is skipped; as two it is an
element without content, which may be the first child of its name and then bars the next one. The
forests of the two documents are the same but for that element, and so are the values but for an
empty one, which may stand in the place of another.
-/

namespace PatentFilter.Markup

namespace TagName

def emptyTag (n : TagName) : String := "<" ++ n.text ++ "/>"

def emptyPair (n : TagName) : String := "<" ++ n.text ++ "></" ++ n.text ++ ">"

end TagName

/-! ### Reading the two spellings -/

theorem IsStartName.ofTag_empty {s : String} (h : IsStartName s) :
    Token.ofTag (s.toList ++ ['/']) = .skipped := by
  unfold Token.ofTag
  split
  · next rest hSlash =>
    exact absurd hSlash (h.append_ne_slash _ rest)
  · simp

theorem IsStartName.read?_empty {s : String} (h : IsStartName s) (rest : List Char) :
    Token.read? (s.toList ++ '/' :: '>' :: rest) = some (.skipped, rest) := by
  have hSlash : '/' ≠ '>' ∧ '/' ≠ '"' ∧ '/' ≠ '\'' := by decide
  have hCut := cutTag?_of_quotesClosed
    (h.isEndName.quotesClosed_append (.plain hSlash .nil)) rest
  rw [List.append_assoc] at hCut
  have hRead := Token.read?_tag (h.head?_append_ne _) hCut
  rwa [h.ofTag_empty] at hRead

namespace TagName

variable (n : TagName) {rest : String} {ts : List Token}

theorem readAs_emptyTag_append (h : ReadAs rest.toList ts) :
    ReadAs (n.emptyTag ++ rest).toList ts := by
  have hChars : (n.emptyTag ++ rest).toList =
      '<' :: (n.text.toList ++ '/' :: '>' :: rest.toList) := by
    simp [emptyTag]
  rw [hChars]
  exact ReadAs.skip (n.valid.isStartName.read?_empty rest.toList) h

theorem readAs_emptyPair_append (h : ReadAs rest.toList ts) :
    ReadAs (n.emptyPair ++ rest).toList (.opening n.text :: .closing n.text :: ts) := by
  have hChars : (n.emptyPair ++ rest).toList =
      (Item.element n ⟨"", isAttributes_empty⟩ []).render.toList ++ rest.toList := by
    simp [emptyPair, Item.render, render]
  rw [hChars]
  exact readAs_itemRender (.element n ⟨"", isAttributes_empty⟩ []) h

end TagName

theorem Growth.step_emptyPair (name : String) (g : Growth) :
    (g.step (.opening name)).step (.closing name) = g.addTrees [.element name []] := by
  have hClosed := closeElement_addTrees_openElement name [] g
  rwa [addTrees_nil] at hClosed

/-! ### Forests with one more element -/

/-- The second forest has one more element of the name, without content, in some place. -/
inductive Inserted (name : String) : List Node → List Node → Prop
  | here (before after : List Node) :
    Inserted name (before ++ after) (before ++ .element name [] :: after)
  | deeper {xs ys : List Node} (before after : List Node) (n : String)
    (h : Inserted name xs ys) :
    Inserted name (before ++ .element n xs :: after) (before ++ .element n ys :: after)

theorem Inserted.append {name : String} {xs ys : List Node} (h : Inserted name xs ys)
    (more : List Node) : Inserted name (xs ++ more) (ys ++ more) := by
  cases h with
  | here before after =>
    simp only [List.append_assoc, List.cons_append]
    exact .here before (after ++ more)
  | deeper before after n h =>
    simp only [List.append_assoc, List.cons_append]
    exact .deeper before (after ++ more) n h

theorem Inserted.contentOf_eq {name : String} {xs ys : List Node} (h : Inserted name xs ys) :
    contentOf xs = contentOf ys := by
  induction h with
  | here before after =>
    simp only [contentOf_append, contentOf, Node.content, String.empty_append]
  | deeper before after n _ ih => simp only [contentOf_append, contentOf, Node.content, ih]

namespace Growth

/-- The second growth has one more element of the name, finished and without content. -/
inductive Inserted (name : String) : Growth → Growth → Prop
  | top {xs ys : List Node} (h : Markup.Inserted name xs ys) : Inserted name (.top xs) (.top ys)
  | earlier {xs ys : List Node} (h : Markup.Inserted name xs ys) (n : String) (inner : Growth) :
    Inserted name (.inside xs n inner) (.inside ys n inner)
  | inner {g h : Growth} (earlier : List Node) (n : String) (hInner : Inserted name g h) :
    Inserted name (.inside earlier n g) (.inside earlier n h)

variable {name : String} {g h : Growth}

theorem inserted_addTrees (name : String) (g : Growth) :
    Inserted name g (g.addTrees [.element name []]) := by
  induction g with
  | top trees =>
    have hHere : Markup.Inserted name (trees ++ []) (trees ++ [.element name []]) :=
      .here trees []
    rw [List.append_nil] at hHere
    exact .top hHere
  | inside earlier n inner ih => exact .inner earlier n ih

theorem Inserted.names_eq (hIns : Inserted name g h) : g.names = h.names := by
  induction hIns with
  | top _ => rfl
  | earlier _ n inner => rfl
  | inner _ n _ ih => rw [names, names, ih]

theorem Inserted.forest (hIns : Inserted name g h) : Markup.Inserted name g.forest h.forest := by
  induction hIns with
  | top hTrees => exact hTrees
  | earlier hTrees n inner => exact hTrees.append _
  | inner earlier n _ ih => exact .deeper earlier [] n ih

theorem Inserted.openElement (hIns : Inserted name g h) (n : String) :
    Inserted name (g.openElement n) (h.openElement n) := by
  induction hIns with
  | top hTrees => exact .earlier hTrees n (.top [])
  | earlier hTrees k inner => exact .earlier hTrees k (inner.openElement n)
  | inner earlier k _ ih => exact .inner earlier k ih

theorem Inserted.addText (hIns : Inserted name g h) (s : String) :
    Inserted name (g.addText s) (h.addText s) := by
  induction hIns with
  | top hTrees => exact .top (hTrees.append [.text s])
  | earlier hTrees k inner => exact .earlier hTrees k (inner.addText s)
  | inner earlier k _ ih => exact .inner earlier k ih

theorem Inserted.closeElement (hIns : Inserted name g h) (n : String) :
    Inserted name (g.closeElement n) (h.closeElement n) := by
  induction hIns with
  | top hTrees => exact .top hTrees
  | earlier hTrees k inner =>
    rw [Growth.closeElement, Growth.closeElement]
    split
    · exact .earlier hTrees k (inner.closeElement n)
    · split
      · exact .top (hTrees.append _)
      · exact .earlier hTrees k inner
  | inner earlier k hInner ih =>
    rw [Growth.closeElement, Growth.closeElement, ← hInner.names_eq]
    split
    · exact .inner earlier k ih
    · split
      · exact .top (.deeper earlier [] k hInner.forest)
      · exact .inner earlier k hInner

theorem Inserted.step (hIns : Inserted name g h) (t : Token) :
    Inserted name (g.step t) (h.step t) := by
  cases t with
  | opening n => exact hIns.openElement n
  | closing n => exact hIns.closeElement n
  | text s => exact hIns.addText s
  | skipped => exact hIns

theorem Inserted.foldl (hIns : Inserted name g h) (ts : List Token) :
    Inserted name (ts.foldl Growth.step g) (ts.foldl Growth.step h) := by
  induction ts generalizing g h with
  | nil => exact hIns
  | cons t ts ih => exact ih (hIns.step t)

end Growth

/-! ### Their values -/

/-- The new values are the old ones, or have an empty one more, behind which one of the old ones
may be missing. -/
inductive Hides : List String → List String → Prop
  | same (values : List String) : Hides values values
  | empty (front back : List String) (hidden : Option String) :
    Hides (front ++ (hidden.toList ++ back)) (front ++ "" :: back)

theorem Hides.append {old new : List String} (h : Hides old new) (left right : List String) :
    Hides (left ++ (old ++ right)) (left ++ (new ++ right)) := by
  cases h with
  | same values => exact .same _
  | empty front back hidden =>
    have hEmpty := Hides.empty (left ++ front) (back ++ right) hidden
    simpa only [List.append_assoc, List.cons_append] using hEmpty

theorem Hides.eq_empty_or_mem {old new : List String} (h : Hides old new) {v : String}
    (hv : v ∈ new) : v = "" ∨ v ∈ old := by
  cases h with
  | same values => exact .inr hv
  | empty front back hidden =>
    simp only [List.mem_append, List.mem_cons] at hv ⊢
    tauto

variable {once : Bool} {last : String}

theorem chosen_append (before after : List Node) :
    chosen once last (before ++ after) =
      chosen once last before ++
        if barred once last before then [] else chosen once last after := by
  cases once with
  | false => simp [chosen, barred]
  | true =>
    rw [chosen, chosen, chosen, barred, ← List.isSome_find?, List.find?_append]
    cases before.find? (·.isNamed last) <;> simp

theorem chosen_element_cons (n : String) (children after : List Node) :
    chosen once last (.element n children :: after) =
      if n == last then .element n children :: (if once then [] else chosen once last after)
      else chosen once last after := by
  cases once <;> by_cases hName : n = last <;> simp [chosen, hName]

theorem readAt_cons_append_cons (m : String) (above : List String) (before after : List Node)
    (n : String) (children : List Node) :
    readAt once (m :: above) last (before ++ .element n children :: after) =
      readAt once (m :: above) last before ++
        ((if n == m then readAt once above last children else []) ++
          readAt once (m :: above) last after) := by
  rw [List.append_cons, readAt_cons_append, readAt_cons_append_element, List.append_assoc]

variable {name : String} {xs ys : List Node}

theorem Inserted.hides_nil (h : Inserted name xs ys) :
    Hides (readAt once [] last xs) (readAt once [] last ys) := by
  cases h with
  | here before after =>
    rw [readAt, readAt, chosen_append, chosen_append, chosen_element_cons]
    cases barred once last before with
    | true => exact .same _
    | false =>
      cases name == last with
      | false => exact .same _
      | true =>
        -- it has a value of its own, and bars what came next if only the first counts
        rw [if_neg Bool.false_ne_true, if_neg Bool.false_ne_true, if_pos rfl, List.map_append,
          List.map_append, List.map_cons]
        cases once with
        | false => exact .empty _ _ none
        | true =>
          have hEmpty := Hides.empty ((chosen true last before).map Node.content) []
            ((after.find? (·.isNamed last)).map Node.content)
          rwa [List.append_nil, Option.toList_map] at hEmpty
  | @deeper xs ys before after n hBelow =>
    have hContent : (Node.element n xs).content = (Node.element n ys).content :=
      hBelow.contentOf_eq
    have hSame : readAt once [] last (before ++ .element n xs :: after) =
        readAt once [] last (before ++ .element n ys :: after) := by
      simp only [readAt, chosen_append, chosen_element_cons]
      split
      · rfl
      · split
        · rw [List.map_append, List.map_append, List.map_cons, List.map_cons, hContent]
        · rfl
    rw [hSame]
    exact .same _

theorem Inserted.hides (h : Inserted name xs ys) (above : List String) :
    Hides (readAt once above last xs) (readAt once above last ys) := by
  -- one step down the path is one step down to the element, or the path leads past it
  induction above generalizing xs ys with
  | nil => exact h.hides_nil
  | cons m above ih =>
    cases h with
    | here before after =>
      have hNothing : readAt once above last [] = [] := by
        cases above <;> cases once <;> rfl
      rw [readAt_cons_append_cons, hNothing, ite_self, List.nil_append, readAt_cons_append]
      exact .same _
    | deeper before after n hBelow =>
      rw [readAt_cons_append_cons, readAt_cons_append_cons]
      cases n == m with
      | false => exact .same _
      | true => exact (ih hBelow).append _ _

/-! ### Which values change -/

namespace Growth

/-- The children of the innermost open element, as far as they are read. -/
def innermost : Growth → List Node
  | top trees => trees
  | inside _ _ inner => inner.innermost

theorem seen_names (once : Bool) (name : String) (g : Growth) :
    g.seen once g.names name = barred once name g.innermost := by
  induction g with
  | top trees => rfl
  | inside earlier n inner ih => simp [names, seen, innermost, ih]

theorem agree_addTrees_empty {above : List String} {g : Growth}
    (h : g.names = above → name = last → g.seen once above last = true) :
    Agree once above last (g.addTrees [.element name []]) g where
  names := names_addTrees _ g
  feeds := feeds_addTrees _ g
  seen := by
    rw [seen_addTrees_element, Bool.or_eq_left_iff_imp]
    intro hHere
    simp only [Bool.and_eq_true, decide_eq_true_eq, beq_iff_eq] at hHere
    exact h hHere.1.2 hHere.2
  values := by
    have hForest : (g.addTrees [.element name []]).forest = (g.openElement name).forest := by
      rw [← step_emptyPair, step, step, forest_closeElement]
    have hNone : (decide (g.names = above) && name == last && !g.seen once above last) = false := by
      rw [Bool.eq_false_iff]
      intro hHere
      simp only [Bool.and_eq_true, decide_eq_true_eq, beq_iff_eq, Bool.not_eq_true'] at hHere
      rw [h hHere.1.1 hHere.1.2] at hHere
      cases hHere.2
    rw [hForest, readAt_openElement, hNone, if_neg Bool.false_ne_true, List.append_nil]

end Growth

/-- Whether the innermost element that a document leaves open has a child of the name. -/
def hasChild (document name : String) : Bool :=
  (foldTokens Growth.step (.top []) document.toList).innermost.any (·.isNamed name)

theorem seen_foldl_tokens (document name : String) :
    ((tokens document.toList).foldl Growth.step (.top [])).seen true (openAfter document) name =
      hasChild document name := by
  rw [← names_foldl_tokens, Growth.seen_names, hasChild, foldTokens_eq_foldl]
  rfl

variable {p : String} (hp : Finished p.toList) (n : TagName) (s : String)

include hp

theorem collect_emptyTag (paths : List Path) :
    collect paths (p ++ n.emptyTag ++ s) = collect paths (p ++ s) := by
  have hRest := ReadAs.refl s.toList
  rw [String.append_assoc, hp.collect_append (n.readAs_emptyTag_append hRest),
    hp.collect_append hRest]

theorem collect_emptyPair_eq (paths : List Path) :
    collect paths (p ++ n.emptyPair ++ s) = paths.map fun path =>
      valuesAt path.names ((tokens s.toList).foldl Growth.step
        (((tokens p.toList).foldl Growth.step (.top [])).addTrees
          [.element n.text []])).forest := by
  have hRest := n.readAs_emptyPair_append (ReadAs.refl s.toList)
  rw [String.append_assoc, hp.collect_append hRest, gather_eq_map_valuesAt]
  simp only [forestOf, List.foldl_append, List.foldl_cons, Growth.step_emptyPair]

theorem collect_append_eq (paths : List Path) :
    collect paths (p ++ s) = paths.map fun path =>
      valuesAt path.names ((tokens s.toList).foldl Growth.step
        ((tokens p.toList).foldl Growth.step (.top []))).forest := by
  rw [hp.collect_append (ReadAs.refl s.toList), gather_eq_map_valuesAt]
  simp only [forestOf, List.foldl_append]

theorem forall₂_hides_collect (paths : List Path) :
    List.Forall₂ Hides (collect paths (p ++ s)) (collect paths (p ++ n.emptyPair ++ s)) := by
  rw [collect_append_eq hp, collect_emptyPair_eq hp, List.forall₂_map_left_iff,
    List.forall₂_map_right_iff, List.forall₂_same]
  rintro ⟨names⟩ _
  rcases List.eq_nil_or_concat names with rfl | ⟨above, last, rfl⟩
  · exact .same []
  · simp only [List.concat_eq_append, valuesAt_concat]
    exact ((Growth.inserted_addTrees n.text _).foldl _).forest.hides above

/-- The element shows only at its own path, and not if it comes after a sibling of its name. -/
theorem collect_emptyPair {paths : List Path}
    (h : ∀ path ∈ paths, path.names = openAfter p ++ [n.text] →
      openAfter p ≠ [] ∧ hasChild p n.text = true) :
    collect paths (p ++ n.emptyPair ++ s) = collect paths (p ++ s) := by
  rw [collect_append_eq hp, collect_emptyPair_eq hp]
  apply List.map_congr_left
  rintro ⟨names⟩ hPath
  rcases List.eq_nil_or_concat names with rfl | ⟨above, last, rfl⟩
  · rfl
  · rw [List.concat_eq_append] at hPath ⊢
    simp only [valuesAt_concat]
    refine ((Growth.agree_addTrees_empty fun hNames hName => ?_).foldl _).values
    rw [names_foldl_tokens] at hNames
    obtain ⟨hOpen, hChild⟩ := h _ hPath (by rw [hNames, hName])
    rw [← hNames, ← hName, List.isEmpty_eq_false_iff.mpr hOpen, Bool.not_false,
      seen_foldl_tokens, hChild]

end PatentFilter.Markup

import PatentFilter.Proofs.Markup.Finished

/-!
# Rendered markup

Markup in good order is a forest of elements, texts, marked sections and comments, each of a form
that keeps it apart from its surroundings. Reading its rendering gives back its tokens, up to where
one text token ends and the next begins, and so the values that stand in the forest itself.
-/

namespace PatentFilter.Markup

/-- The name of an element is not empty, does not start like another construct, and holds no
blank, slash, angle bracket or quote. -/
structure IsTagName (s : String) : Prop where
  ne_nil : s.toList ≠ []
  head_ne : ∀ c ∈ s.toList.head?, c ≠ '!' ∧ c ≠ '?'
  plain : ∀ c ∈ s.toList,
    Text.isBlank c = false ∧ c ≠ '/' ∧ c ≠ '<' ∧ c ≠ '>' ∧ c ≠ '"' ∧ c ≠ '\''

instance (s : String) : Decidable (IsTagName s) :=
  decidable_of_iff (s.toList ≠ [] ∧ s.toList.head?.all (fun c => c ≠ '!' ∧ c ≠ '?') = true ∧
      s.toList.all (fun c =>
        Text.isBlank c = false ∧ c ≠ '/' ∧ c ≠ '<' ∧ c ≠ '>' ∧ c ≠ '"' ∧ c ≠ '\'') = true) <| by
    simp only [Option.all_eq_true, List.all_eq_true, decide_eq_true_eq]
    exact ⟨fun h => ⟨h.1, h.2.1, h.2.2⟩, fun h => ⟨h.ne_nil, h.head_ne, h.plain⟩⟩

structure TagName where
  text : String
  valid : IsTagName text

/-- What a start tag has for its name; an angle bracket `<` may be in it. -/
structure IsStartName (s : String) : Prop where
  ne_nil : s.toList ≠ []
  head_ne : ∀ c ∈ s.toList.head?, c ≠ '!' ∧ c ≠ '?'
  plain : ∀ c ∈ s.toList, Text.isBlank c = false ∧ c ≠ '/' ∧ c ≠ '>' ∧ c ≠ '"' ∧ c ≠ '\''

/-- What an end tag has for its name if nothing else stands in it. -/
structure IsEndName (s : String) : Prop where
  ne_nil : s.toList ≠ []
  plain : ∀ c ∈ s.toList, Text.isBlank c = false ∧ c ≠ '>' ∧ c ≠ '"' ∧ c ≠ '\''

theorem IsTagName.isStartName {s : String} (h : IsTagName s) : IsStartName s where
  ne_nil := h.ne_nil
  head_ne := h.head_ne
  plain c hc := by
    obtain ⟨hBlank, hSlash, _, hRest⟩ := h.plain c hc
    exact ⟨hBlank, hSlash, hRest⟩

theorem IsStartName.isEndName {s : String} (h : IsStartName s) : IsEndName s where
  ne_nil := h.ne_nil
  plain c hc := by
    obtain ⟨hBlank, _, hRest⟩ := h.plain c hc
    exact ⟨hBlank, hRest⟩

/-- All quotes are closed, and every `>` stands inside a quoted value. -/
inductive QuotesClosed : List Char → Prop
  | nil : QuotesClosed []
  | plain {c : Char} {cs : List Char} (hc : c ≠ '>' ∧ c ≠ '"' ∧ c ≠ '\'') (h : QuotesClosed cs) :
    QuotesClosed (c :: cs)
  | quoted {q : Char} {value cs : List Char} (hq : q = '"' ∨ q = '\'') (hValue : q ∉ value)
    (h : QuotesClosed cs) : QuotesClosed (q :: (value ++ q :: cs))

/-- What may stand behind the name in a start tag. -/
structure IsAttributes (s : String) : Prop where
  blank_head : ∀ c ∈ s.toList.head?, Text.isBlank c = true
  closed : QuotesClosed s.toList
  last_ne : s.toList.getLast? ≠ some '/'

theorem isAttributes_empty : IsAttributes "" :=
  ⟨by simp, .nil, by simp⟩

structure Attributes where
  text : String
  valid : IsAttributes text

inductive Item where
  | element (name : TagName) (attributes : Attributes) (children : List Item)
  | text (content : { s : String // '<' ∉ s.toList })
  | marked (content : { s : String // ¬ [']', ']', '>'] <:+: s.toList })
  | comment (content : { s : String // ¬ ['-', '-', '>'] <:+: s.toList })

mutual

def Item.render : Item → String
  | .element name attributes children =>
    "<" ++ name.text ++ attributes.text ++ ">" ++ render children ++ "</" ++ name.text ++ ">"
  | .text content => content.val
  | .marked content => "<![CDATA[" ++ content.val ++ "]]>"
  | .comment content => "<!--" ++ content.val ++ "-->"

def render : List Item → String
  | [] => ""
  | x :: xs => x.render ++ render xs

end

mutual

/-- An item as trees of elements and text. A comment is none. -/
def Item.nodes : Item → List Node
  | .element name _ children => [.element name.text (nodesOf children)]
  | .text content => [.text content.val]
  | .marked content => [.text content.val]
  | .comment _ => []

def nodesOf : List Item → List Node
  | [] => []
  | x :: xs => x.nodes ++ nodesOf xs

end

mutual

def Item.tokens : Item → List Token
  | .element name _ children => .opening name.text :: (tokensOf children ++ [.closing name.text])
  | .text content => [.text content.val]
  | .marked content => [.text content.val]
  | .comment _ => [.skipped]

def tokensOf : List Item → List Token
  | [] => []
  | x :: xs => x.tokens ++ tokensOf xs

end

/-! ### The tokens of an item make its trees -/

namespace Growth

def addTrees (trees : List Node) : Growth → Growth
  | top earlier => top (earlier ++ trees)
  | inside earlier name inner => inside earlier name (inner.addTrees trees)

theorem addTrees_nil (g : Growth) : g.addTrees [] = g := by
  induction g with
  | top earlier => rw [addTrees, List.append_nil]
  | inside earlier name inner ih => rw [addTrees, ih]

theorem addTrees_addTrees (xs ys : List Node) (g : Growth) :
    (g.addTrees xs).addTrees ys = g.addTrees (xs ++ ys) := by
  induction g with
  | top earlier => simp only [addTrees, List.append_assoc]
  | inside earlier name inner ih => simp only [addTrees, ih]

theorem addText_eq_addTrees (s : String) (g : Growth) : g.addText s = g.addTrees [.text s] := by
  induction g with
  | top earlier => rfl
  | inside earlier name inner ih => rw [addText, addTrees, ih]

theorem names_addTrees (trees : List Node) (g : Growth) : (g.addTrees trees).names = g.names := by
  induction g with
  | top earlier => rfl
  | inside earlier name inner ih => rw [addTrees, names, names, ih]

theorem closeElement_addTrees_openElement (name : String) (trees : List Node) (g : Growth) :
    ((g.openElement name).addTrees trees).closeElement name =
      g.addTrees [.element name trees] := by
  induction g with
  | top earlier =>
    have hNone : name ∉ (top trees).names := List.not_mem_nil
    simp only [openElement, addTrees, List.nil_append]
    rw [closeElement, if_neg hNone, if_pos rfl]
    rfl
  | inside earlier n inner ih =>
    have hMem : name ∈ ((inner.openElement name).addTrees trees).names := by
      rw [names_addTrees, names_openElement]
      simp
    rw [openElement, addTrees, closeElement, if_pos hMem, ih]
    rfl

mutual

theorem foldl_step_itemTokens (x : Item) (g : Growth) :
    x.tokens.foldl step g = g.addTrees x.nodes := by
  cases x with
  | element name attributes children =>
    rw [Item.tokens, List.foldl_cons, List.foldl_append, foldl_step_tokensOf children]
    exact closeElement_addTrees_openElement name.text (nodesOf children) g
  | text content => exact addText_eq_addTrees content.val g
  | marked content => exact addText_eq_addTrees content.val g
  | comment content => exact (addTrees_nil g).symm

theorem foldl_step_tokensOf (xs : List Item) (g : Growth) :
    (tokensOf xs).foldl step g = g.addTrees (nodesOf xs) := by
  cases xs with
  | nil => exact (addTrees_nil g).symm
  | cons x xs =>
    rw [tokensOf, List.foldl_append, foldl_step_itemTokens x, foldl_step_tokensOf xs,
      addTrees_addTrees]
    rfl

end

end Growth

theorem forestOf_tokensOf (xs : List Item) : forestOf (tokensOf xs) = nodesOf xs := by
  rw [forestOf, Growth.foldl_step_tokensOf]
  rfl

/-! ### The rendering of an item is read as its tokens -/

/-- The end mark of a section or comment cannot start inside a content without it. -/
theorem not_prefix_of_not_infix {x y : Char} (hxy : x ≠ y) {content rest : List Char}
    (hNil : content ≠ []) (h : ¬ [x, x, y] <:+: content) :
    ¬ [x, x, y] <+: content ++ x :: x :: y :: rest := by
  intro hPrefix
  match content with
  | [] => exact hNil rfl
  | [_] =>
    obtain ⟨_, hEq⟩ := hPrefix
    simp only [List.cons_append, List.nil_append, List.cons.injEq] at hEq
    exact hxy hEq.2.2.1.symm
  | [_, _] =>
    obtain ⟨_, hEq⟩ := hPrefix
    simp only [List.cons_append, List.nil_append, List.cons.injEq] at hEq
    exact hxy hEq.2.2.1.symm
  | a :: b :: c :: more =>
    obtain ⟨_, hEq⟩ := hPrefix
    simp only [List.cons_append, List.nil_append, List.cons.injEq] at hEq
    obtain ⟨rfl, rfl, rfl, _⟩ := hEq
    exact h ⟨[], more, rfl⟩

theorem cutAt?_of_not_infix {x y : Char} (hxy : x ≠ y) {content : List Char}
    (h : ¬ [x, x, y] <:+: content) (rest : List Char) :
    cutAt? [x, x, y] (content ++ x :: x :: y :: rest) = some (content, rest) := by
  induction content with
  | nil => simp [cutAt?]
  | cons c content ih =>
    have hHere : ¬ [x, x, y].isPrefixOf (c :: (content ++ x :: x :: y :: rest)) = true := by
      rw [List.isPrefixOf_iff_prefix]
      exact not_prefix_of_not_infix hxy (List.cons_ne_nil c content) h
    have hTail : ¬ [x, x, y] <:+: content := by
      intro hInfix
      exact h (hInfix.trans (List.suffix_cons c content).isInfix)
    rw [List.cons_append, cutAt?, if_neg hHere, ih hTail]
    rfl

theorem cutTag?_of_notMem {q : Char} {value : List Char} (h : q ∉ value) (cs : List Char) :
    cutTag? (some q) (value ++ q :: cs) =
      (cutTag? none cs).map fun p => (value ++ q :: p.1, p.2) := by
  induction value with
  | nil => simp [cutTag?]
  | cons c value ih =>
    rw [List.mem_cons, not_or] at h
    rw [List.cons_append, cutTag?, if_neg (Ne.symm h.1), ih h.2, Option.map_map]
    rfl

theorem cutTag?_of_quotesClosed {inner : List Char} (h : QuotesClosed inner) (rest : List Char) :
    cutTag? none (inner ++ '>' :: rest) = some (inner, rest) := by
  induction h with
  | nil => rfl
  | plain hc _ ih =>
    obtain ⟨hEnd, hDouble, hSingle⟩ := hc
    rw [List.cons_append, cutTag?, if_neg hEnd, if_neg (not_or.mpr ⟨hDouble, hSingle⟩), ih]
    rfl
  | @quoted q value cs hq hValue _ ih =>
    have hEnd : q ≠ '>' := by
      rcases hq with rfl | rfl <;> decide
    rw [List.cons_append, cutTag?, if_neg hEnd, if_pos hq, List.append_assoc, List.cons_append,
      cutTag?_of_notMem hValue, ih]
    rfl

theorem quotesClosed_append {text cs : List Char}
    (hText : ∀ c ∈ text, c ≠ '>' ∧ c ≠ '"' ∧ c ≠ '\'') (h : QuotesClosed cs) :
    QuotesClosed (text ++ cs) := by
  induction text with
  | nil => exact h
  | cons c text ih =>
    rw [List.forall_mem_cons] at hText
    exact .plain hText.1 (ih hText.2)

namespace IsEndName

variable {s : String} (h : IsEndName s)

include h

theorem quotesClosed_append {cs : List Char} (hClosed : QuotesClosed cs) :
    QuotesClosed (s.toList ++ cs) :=
  Markup.quotesClosed_append (fun c hc => (h.plain c hc).2) hClosed

theorem firstWord_eq : Text.firstWord s.toList = s.toList := by
  have hBlank : ∀ c ∈ s.toList, Text.isBlank c = false := fun c hc => (h.plain c hc).1
  obtain ⟨c, cs, hChars⟩ := List.exists_cons_of_ne_nil h.ne_nil
  have hDrop : s.toList.dropWhile Text.isBlank = s.toList := by
    rw [hChars] at hBlank ⊢
    rw [List.dropWhile_cons_of_neg]
    simp [hBlank c List.mem_cons_self]
  rw [Text.firstWord, hDrop, List.takeWhile_eq_self_iff]
  intro c hc
  rw [hBlank c hc]
  rfl

theorem ofTag_closing : Token.ofTag ('/' :: s.toList) = .closing s := by
  simp [Token.ofTag, h.firstWord_eq, List.isEmpty_iff, h.ne_nil]

theorem read?_closing (rest : List Char) :
    Token.read? ('/' :: (s.toList ++ '>' :: rest)) = some (.closing s, rest) := by
  have hSlash : '/' ≠ '>' ∧ '/' ≠ '"' ∧ '/' ≠ '\'' := by decide
  have hName : QuotesClosed s.toList := by
    rw [← List.append_nil s.toList]
    exact h.quotesClosed_append .nil
  have hCut := cutTag?_of_quotesClosed (.plain hSlash hName) rest
  rw [List.cons_append] at hCut
  rw [Token.read?_tag (by simp) hCut, h.ofTag_closing]

end IsEndName

namespace IsStartName

variable {s : String} (h : IsStartName s) (attributes : Attributes)

include h

theorem getLast?_append_ne : (s.toList ++ attributes.text.toList).getLast? ≠ some '/' := by
  intro hLast
  rcases List.eq_nil_or_concat attributes.text.toList with hNil | ⟨front, c, hConcat⟩
  · rw [hNil, List.append_nil] at hLast
    obtain ⟨_, hSlash, _⟩ := h.plain '/' (List.mem_of_mem_getLast? hLast)
    exact hSlash rfl
  · have hLast' := attributes.valid.last_ne
    rw [hConcat, List.concat_eq_append] at hLast hLast'
    rw [← List.append_assoc, List.getLast?_concat] at hLast
    rw [List.getLast?_concat] at hLast'
    exact hLast' hLast

theorem takeWhile_append :
    (s.toList ++ attributes.text.toList).takeWhile (fun c => !Text.isBlank c && c != '/') =
      s.toList := by
  rw [List.takeWhile_append_of_pos]
  · have hBlank := attributes.valid.blank_head
    cases hChars : attributes.text.toList with
    | nil => simp
    | cons c cs =>
      rw [hChars] at hBlank
      simp [hBlank c rfl]
  · intro c hc
    obtain ⟨hBlank, hSlash, _⟩ := h.plain c hc
    simp [hBlank, hSlash]

theorem append_ne_slash (cs rest : List Char) : s.toList ++ cs ≠ '/' :: rest := by
  intro hSlash
  obtain ⟨c, chars, hChars⟩ := List.exists_cons_of_ne_nil h.ne_nil
  rw [hChars, List.cons_append] at hSlash
  obtain ⟨rfl, _⟩ := List.cons.inj hSlash
  obtain ⟨_, hNot, _⟩ := h.plain '/' (hChars ▸ List.mem_cons_self)
  exact hNot rfl

theorem ofTag_opening :
    Token.ofTag (s.toList ++ attributes.text.toList) = .opening s := by
  have hTake := h.takeWhile_append attributes
  have hLast := h.getLast?_append_ne attributes
  unfold Token.ofTag
  split
  · next rest hSlash =>
    exact absurd hSlash (h.append_ne_slash _ rest)
  · have hName : s.toList.isEmpty = false := List.isEmpty_eq_false_iff.mpr h.ne_nil
    simp only [hTake, hName, beq_eq_false_iff_ne.mpr hLast, Bool.or_self, Bool.false_eq_true,
      if_false, String.ofList_toList]

theorem head?_append_ne (cs : List Char) :
    ¬ ((s.toList ++ cs).head? = some '!' ∨ (s.toList ++ cs).head? = some '?') := by
  rw [List.head?_append_of_ne_nil _ h.ne_nil]
  rintro (hHead | hHead)
  · exact (h.head_ne '!' hHead).1 rfl
  · exact (h.head_ne '?' hHead).2 rfl

theorem read?_opening (rest : List Char) :
    Token.read? (s.toList ++ (attributes.text.toList ++ '>' :: rest)) =
      some (.opening s, rest) := by
  have hCut := cutTag?_of_quotesClosed
    (h.isEndName.quotesClosed_append attributes.valid.closed) rest
  rw [List.append_assoc] at hCut
  rw [Token.read?_tag (h.head?_append_ne _) hCut, h.ofTag_opening]

end IsStartName

mutual

theorem readAs_itemRender (x : Item) {rest : List Char} {ts : List Token} (h : ReadAs rest ts) :
    ReadAs (x.render.toList ++ rest) (x.tokens ++ ts) := by
  cases x with
  | element name attributes children =>
    have hChars : (Item.element name attributes children).render.toList ++ rest =
        '<' :: (name.text.toList ++ (attributes.text.toList ++ '>' :: ((render children).toList ++
          '<' :: '/' :: (name.text.toList ++ '>' :: rest)))) := by
      simp [Item.render]
    have hTokens : (Item.element name attributes children).tokens ++ ts =
        .opening name.text :: (tokensOf children ++ .closing name.text :: ts) := by
      simp [Item.tokens]
    rw [hChars, hTokens]
    apply ReadAs.construct (name.valid.isStartName.read?_opening attributes _)
    apply readAs_render children
    exact ReadAs.construct (name.valid.isStartName.isEndName.read?_closing rest) h
  | text content =>
    have hText := ReadAs.text content.property h
    rwa [String.ofList_toList] at hText
  | marked content =>
    have hCut := cutAt?_of_not_infix (x := ']') (by decide) content.property rest
    have hRead := Token.read?_section hCut
    rw [String.ofList_toList] at hRead
    have hChars : (Item.marked content).render.toList ++ rest =
        '<' :: (sectionMark ++ (content.val.toList ++ ']' :: ']' :: '>' :: rest)) := by
      simp [Item.render, sectionMark]
    rw [hChars]
    exact ReadAs.construct hRead h
  | comment content =>
    have hCut := cutAt?_of_not_infix (x := '-') (by decide) content.property rest
    have hChars : (Item.comment content).render.toList ++ rest =
        '<' :: (commentMark ++ (content.val.toList ++ '-' :: '-' :: '>' :: rest)) := by
      simp [Item.render, commentMark]
    rw [hChars]
    exact ReadAs.construct (Token.read?_comment hCut) h

theorem readAs_render (xs : List Item) {rest : List Char} {ts : List Token} (h : ReadAs rest ts) :
    ReadAs ((render xs).toList ++ rest) (tokensOf xs ++ ts) := by
  cases xs with
  | nil => exact h
  | cons x xs =>
    rw [render, String.toList_append, List.append_assoc, tokensOf, List.append_assoc]
    exact readAs_itemRender x (readAs_render xs h)

end

theorem readAs_render_self (xs : List Item) : ReadAs (render xs).toList (tokensOf xs) := by
  have hRead := readAs_render xs (ReadAs.refl [])
  rwa [List.append_nil, tokens_nil, List.append_nil] at hRead

theorem gather_render (paths : List Path) (xs : List Item) :
    gather paths (tokens (render xs).toList) = gather paths (tokensOf xs) := by
  rw [← collect_eq_gather, (readAs_render_self xs).collect_eq]

/-- Whatever the forest and the paths, the values read from the rendering are those that stand in
the forest: at each path, and in document order, the content of the first child under every
element at the path of the parent, or of every root of the only name; none at the empty path. -/
theorem collect_render (forest : List Item) (paths : List Path) :
    collect paths (render forest) = paths.map fun p => valuesAt p.names (nodesOf forest) := by
  rw [collect_eq_gather, gather_render, gather_eq_map_valuesAt, forestOf_tokensOf]

-- nested and later children, a marked section, a comment, a `>` in a value
example : collect [⟨["a", "b"]⟩, ⟨["a"]⟩]
    "<a x='>'><b>p]</b><!--<b>--><b><![CDATA[<b>]]]></b></a>" = [["p]"], ["p]<b>]"]] := by
  decide +kernel

end PatentFilter.Markup

import PatentFilter.Proofs.Markup.Rendering
import PatentFilter.Query.Basic
import PatentFilter.Specimen

/-!
# Specimens as forests

A specimen is a document type declaration followed by the rendering of a forest, whatever its four
fields are and however long its description. So its values are those that stand in the forest: at
the place of a field that field, if it is given, and the description adds nothing to them.
-/

namespace PatentFilter.Specimen

open Markup

abbrev PlainText := { s : String // '<' ∉ s.toList }

def noAttributes : Attributes := ⟨"", by simp, .nil, by simp⟩

def bare (name : String) (h : IsTagName name) (children : List Item) : Item :=
  .element ⟨name, h⟩ noAttributes children

def newline : Item := .text ⟨"\n", by decide⟩

def pdat (s : PlainText) : Item := bare "PDAT" (by decide) [.text s]

def fieldItems (element : String) (h : IsTagName element) (v : Option PlainText) : List Item :=
  v.toList.map fun s => bare element h [pdat s]

def number : Item :=
  bare "B100" (by decide)
    [bare "B110" (by decide) [bare "DNUM" (by decide) [pdat ⟨"06000000", by decide⟩]]]

def title : Item :=
  bare "B540" (by decide) [bare "STEXT" (by decide) [pdat ⟨"Synthetic title", by decide⟩]]

def abstract : Item :=
  bare "SDOAB" (by decide)
    [bare "BTEXT" (by decide)
      [bare "PARA" (by decide)
        [bare "PTEXT" (by decide) [pdat ⟨"Abstract text.", by decide⟩]]]]

def fieldsBelow (a b c d : Option PlainText) : Scheme → List Item
  | .cpc => fieldItems "B511" (by decide) a ++ fieldItems "B516" (by decide) b
  | .uspc => fieldItems "B521" (by decide) c ++ fieldItems "B522" (by decide) d

def bibliography (a b c d : Option PlainText) : Item :=
  bare "SDOBI" (by decide)
    [newline, number, newline,
      bare "B500" (by decide)
        [newline, bare "B510" (by decide) (fieldsBelow a b c d .cpc), newline,
          bare "B520" (by decide) (fieldsBelow a b c d .uspc), newline, title, newline],
      newline]

def rootAttributes : Attributes where
  text := " DTD=\"2.5\" STATUS=\"BUILD 20010803\""
  valid := {
    blank_head := by
      intro c hc
      obtain rfl : ' ' = c := Option.some.inj hc
      decide
    closed := by
      have hParts : QuotesClosed (" DTD=".toList ++ '"' :: ("2.5".toList ++ '"' ::
          (" STATUS=".toList ++ '"' :: ("BUILD 20010803".toList ++ '"' :: [])))) := by
        apply quotesClosed_append (by simp)
        apply QuotesClosed.quoted (.inl rfl) (by decide)
        apply quotesClosed_append (by simp)
        exact .quoted (.inl rfl) (by decide) .nil
      exact hParts
    last_ne := by decide }

def forest (a b c d : Option PlainText) (ending : List Item) : List Item :=
  [newline,
    .element ⟨"PATDOC", by decide⟩ rootAttributes
      (newline :: bibliography a b c d :: newline :: abstract :: newline :: ending),
    newline]

/-! ### Rendering -/

theorem render_nil : render [] = "" := rfl

theorem render_cons (x : Item) (xs : List Item) : render (x :: xs) = x.render ++ render xs := rfl

theorem render_append (xs ys : List Item) : render (xs ++ ys) = render xs ++ render ys := by
  induction xs with
  | nil => rw [List.nil_append, render_nil, String.empty_append]
  | cons x xs ih => rw [List.cons_append, render_cons, render_cons, ih, String.append_assoc]

theorem render_bare (name : String) (h : IsTagName name) (children : List Item) :
    (bare name h children).render =
      "<" ++ name ++ ">" ++ render children ++ "</" ++ name ++ ">" := by
  rw [← String.toList_inj]
  simp [bare, Item.render, noAttributes]

theorem render_pdat (s : PlainText) : (pdat s).render = "<PDAT>" ++ s.val ++ "</PDAT>" := by
  rw [← String.toList_inj]
  simp [pdat, render_bare, render_cons, render_nil, Item.render]

theorem render_fieldItems (element : String) (h : IsTagName element) (v : Option PlainText) :
    render (fieldItems element h v) = field element (v.map Subtype.val) := by
  cases v with
  | none => rfl
  | some v =>
    have hOpen : "><PDAT>" = ">" ++ "<PDAT>" := by decide
    have hClose : "</PDAT></" = "</PDAT>" ++ "</" := by decide
    simp only [fieldItems, Option.toList_some, List.map_cons, List.map_nil, render_cons, render_nil,
      render_bare, render_pdat, Option.map_some, field, hOpen, hClose, String.append_assoc,
      String.append_empty]

def declaration : String := "!DOCTYPE PATDOC SYSTEM \"ST32-US-Grant-025xml.dtd\">"

/-- The texts of a specimen, cut where the rendering puts its parts together. -/
theorem body_append_eq_render (a b c d : Option PlainText) (ending : List Item) :
    body (a.map Subtype.val) (b.map Subtype.val) (c.map Subtype.val) (d.map Subtype.val) ++
      render ending ++ rootEnd = "<" ++ declaration ++ render (forest a b c d ending) := by
  have hDeclaration : "<!DOCTYPE PATDOC SYSTEM \"ST32-US-Grant-025xml.dtd\">\n" =
      "<" ++ declaration ++ "\n" := by decide
  have hRoot : "<PATDOC DTD=\"2.5\" STATUS=\"BUILD 20010803\">\n" =
      "<" ++ "PATDOC" ++ rootAttributes.text ++ ">" ++ "\n" := by decide
  have hNumber : "<SDOBI>\n<B100><B110><DNUM><PDAT>06000000</PDAT></DNUM></B110></B100>\n<B500>\n" =
      "<" ++ "SDOBI" ++ ">" ++ "\n" ++ number.render ++ "\n" ++ "<" ++ "B500" ++ ">" ++ "\n" := by
    decide
  have hCpc : "<B510>" = "<" ++ "B510" ++ ">" := by decide
  have hCpcEnd : "</B510>\n" = "</" ++ "B510" ++ ">" ++ "\n" := by decide
  have hUspc : "<B520>" = "<" ++ "B520" ++ ">" := by decide
  have hUspcEnd : "</B520>\n" = "</" ++ "B520" ++ ">" ++ "\n" := by decide
  have hTitle : "<B540><STEXT><PDAT>Synthetic title</PDAT></STEXT></B540>\n" =
      title.render ++ "\n" := by decide
  have hEnd : "</B500>\n</SDOBI>\n" =
      "</" ++ "B500" ++ ">" ++ "\n" ++ "</" ++ "SDOBI" ++ ">" ++ "\n" := by decide
  have hAbstract :
      "<SDOAB><BTEXT><PARA><PTEXT><PDAT>Abstract text.</PDAT></PTEXT></PARA></BTEXT></SDOAB>\n" =
        abstract.render ++ "\n" := by decide
  have hRootEnd : "</PATDOC>\n" = "</" ++ "PATDOC" ++ ">" ++ "\n" := by decide
  unfold body rootEnd
  simp only [hDeclaration, hRoot, hNumber, hCpc, hCpcEnd, hUspc, hUspcEnd, hTitle, hEnd, hAbstract,
    hRootEnd, forest, bibliography, fieldsBelow, newline, Item.render, render_cons, render_nil,
    render_append, render_bare, render_fieldItems, String.append_assoc, String.append_empty]

/-! ### Descriptions -/

theorem digit_plain {i : Nat} {x : Char} (hx : x ∈ Nat.toDigits 10 i) : x ≠ '<' ∧ x ≠ '"' := by
  have hDigit := Nat.isDigit_of_mem_toDigits (by decide) (by decide) hx
  constructor
  · rintro rfl
    cases hDigit
  · rintro rfl
    cases hDigit

theorem notMem_paragraphNumber (i : Nat) : '"' ∉ (paragraphNumber i).toList := by
  rw [paragraphNumber, String.toList_ofList, List.mem_append, not_or]
  constructor
  · intro hMem
    cases List.eq_of_mem_replicate hMem
  · intro hMem
    exact (digit_plain hMem).2 rfl

def paragraphAttributes (i : Nat) : Attributes where
  text := " ID=\"P-" ++ paragraphNumber i ++ "\""
  valid := {
    blank_head := by
      intro c hc
      rw [String.toList_append, String.toList_append] at hc
      obtain rfl : ' ' = c := Option.some.inj hc
      decide
    closed := by
      have hChars : (" ID=\"P-" ++ paragraphNumber i ++ "\"").toList =
          " ID=".toList ++ '"' :: (('P' :: '-' :: (paragraphNumber i).toList) ++ '"' :: []) := by
        simp
      rw [hChars]
      apply quotesClosed_append (by simp)
      apply QuotesClosed.quoted (.inl rfl) _ .nil
      simp [notMem_paragraphNumber]
    last_ne := by
      rw [String.toList_append]
      change (_ ++ ['"']).getLast? ≠ _
      rw [List.getLast?_concat]
      decide }

def paragraphText (i : Nat) : PlainText where
  val := "Paragraph " ++ toString i ++ " describes the claimed apparatus in detail."
  property := by
    have hNumber : '<' ∉ Nat.toDigits 10 i := by
      intro hMem
      exact (digit_plain hMem).1 rfl
    simp [hNumber]

def paragraphItems (i : Nat) : List Item :=
  [.element ⟨"PARA", by decide⟩ (paragraphAttributes i)
    [bare "PTEXT" (by decide) [pdat (paragraphText i)]], newline]

def descriptionItems (paragraphs : Nat) : List Item :=
  [bare "SDODE" (by decide)
    [bare "DETDESC" (by decide)
      [bare "BTEXT" (by decide)
        (newline :: (List.range paragraphs).flatMap paragraphItems)]], newline]

theorem render_paragraphItems (i : Nat) : render (paragraphItems i) = paragraph i := by
  have hOpen : "<PARA ID=\"P-" = "<" ++ "PARA" ++ " ID=\"P-" := by decide
  have hText : "\"><PTEXT><PDAT>Paragraph " =
      "\"" ++ ">" ++ "<" ++ "PTEXT" ++ ">" ++ "<PDAT>" ++ "Paragraph " := by decide
  have hEnd : " describes the claimed apparatus in detail.</PDAT></PTEXT></PARA>\n" =
      " describes the claimed apparatus in detail." ++ "</PDAT>" ++ "</" ++ "PTEXT" ++ ">" ++
        "</" ++ "PARA" ++ ">" ++ "\n" := by decide
  unfold paragraph
  simp only [hOpen, hText, hEnd, paragraphItems, paragraphAttributes, paragraphText, newline,
    Item.render, render_cons, render_nil, render_bare, render_pdat, String.append_assoc,
    String.append_empty]

theorem render_flatMap {α : Type} (f : α → List Item) (xs : List α) :
    render (xs.flatMap f) = String.join (xs.map fun x => render (f x)) := by
  induction xs with
  | nil => rfl
  | cons x xs ih => rw [List.flatMap_cons, render_append, ih, List.map_cons, String.join_cons]

theorem render_descriptionItems (paragraphs : Nat) :
    render (descriptionItems paragraphs) = description paragraphs := by
  have hOpen : "<SDODE><DETDESC><BTEXT>\n" =
      "<" ++ "SDODE" ++ ">" ++ "<" ++ "DETDESC" ++ ">" ++ "<" ++ "BTEXT" ++ ">" ++ "\n" := by decide
  have hEnd : "</BTEXT></DETDESC></SDODE>\n" =
      "</" ++ "BTEXT" ++ ">" ++ "</" ++ "DETDESC" ++ ">" ++ "</" ++ "SDODE" ++ ">" ++ "\n" := by
    decide
  unfold description
  simp only [hOpen, hEnd, descriptionItems, newline, Item.render, render_cons, render_nil,
    render_bare, render_flatMap, render_paragraphItems, String.append_assoc, String.append_empty]

/-! ### Values -/

/-- The fields of a specimen by scheme and location. -/
def recorded {α : Type} (cpcPrimary cpcSecondary uspcPrimary uspcSecondary : Option α) :
    Scheme → Location → Option α
  | .cpc, .primary => cpcPrimary
  | .cpc, .secondary => cpcSecondary
  | .uspc, .primary => uspcPrimary
  | .uspc, .secondary => uspcSecondary

theorem nodesOf_nil : nodesOf [] = [] := rfl

theorem nodesOf_cons (x : Item) (xs : List Item) : nodesOf (x :: xs) = x.nodes ++ nodesOf xs := rfl

theorem nodesOf_append (xs ys : List Item) : nodesOf (xs ++ ys) = nodesOf xs ++ nodesOf ys := by
  induction xs with
  | nil => rfl
  | cons x xs ih => rw [List.cons_append, nodesOf_cons, nodesOf_cons, ih, List.append_assoc]

theorem nodes_bare (name : String) (h : IsTagName name) (children : List Item) :
    (bare name h children).nodes = [.element name (nodesOf children)] := rfl

theorem nodes_newline : newline.nodes = [.text "\n"] := rfl

theorem readAt_fieldItems (m element : String) (h : IsTagName element) (v : Option PlainText) :
    readAt true [m] "PDAT" (nodesOf (fieldItems element h v)) =
      if element = m then (v.map Subtype.val).toList else [] := by
  cases v with
  | none => simp [fieldItems, nodesOf_nil, readAt]
  | some v =>
    have hNodes : nodesOf (fieldItems element h (some v)) =
        [.element element [.element "PDAT" [.text v.val]]] := rfl
    rw [hNodes]
    by_cases hName : element = m
    · simp [hName, readAt, chosen, Node.content, contentOf]
    · simp [hName, readAt]

variable {a b c d : Option PlainText} {ending : List Item}

theorem readAt_forest (hEnding : (nodesOf ending).filter (·.isNamed "SDOBI") = []) (s : Scheme)
    (below : List String) (name : String) :
    readAt true (s.layout.anchor.names ++ below) name (nodesOf (forest a b c d ending)) =
      readAt true below name (nodesOf (fieldsBelow a b c d s)) := by
  cases s <;>
  simp [Scheme.layout, readAt, forest, bibliography, number, title, abstract, nodesOf_cons,
    nodesOf_nil, nodes_bare, nodes_newline, Item.nodes, hEnding]

theorem valuesAt_forest (hEnding : (nodesOf ending).filter (·.isNamed "SDOBI") = []) {s : Scheme}
    {p : Place} (hp : p ∈ s.layout.places) :
    valuesAt (s.layout.anchor.extend [p.element, p.textElement]).names
      (nodesOf (forest a b c d ending)) =
        ((recorded a b c d s p.location).map Subtype.val).toList := by
  have hNames : (s.layout.anchor.extend [p.element, p.textElement]).names =
      s.layout.anchor.names ++ [p.element] ++ [p.textElement] := by
    simp [Markup.Path.extend]
  have hBelow : (s.layout.anchor.names ++ [p.element]).isEmpty = false := by simp
  rw [hNames, valuesAt_concat, hBelow, Bool.not_false, readAt_forest hEnding]
  cases s with
  | cpc =>
    rcases List.mem_pair.mp hp with rfl | rfl
    · simp [fieldsBelow, nodesOf_append, readAt_cons_append, readAt_fieldItems, recorded]
    · simp [fieldsBelow, nodesOf_append, readAt_cons_append, readAt_fieldItems, recorded]
  | uspc =>
    rcases List.mem_pair.mp hp with rfl | rfl
    · simp [fieldsBelow, nodesOf_append, readAt_cons_append, readAt_fieldItems, recorded]
    · simp [fieldsBelow, nodesOf_append, readAt_cons_append, readAt_fieldItems, recorded]

theorem filter_descriptionItems (paragraphs : Nat) :
    (nodesOf (descriptionItems paragraphs)).filter (·.isNamed "SDOBI") = [] := by
  simp [descriptionItems, nodesOf_cons, nodesOf_nil, nodes_bare, nodes_newline]

theorem collect_declaration_render (paths : List Path) (xs : List Item) :
    collect paths ("<" ++ declaration ++ render xs) =
      paths.map fun p => valuesAt p.names (nodesOf xs) := by
  have hAlone : Token.read? declaration.toList = some (.skipped, []) := by decide
  have hRead : Token.read? (declaration.toList ++ (render xs).toList) =
      some (.skipped, (render xs).toList) := Token.read?_append hAlone (render xs).toList
  have hChars : ("<" ++ declaration ++ render xs).toList =
      '<' :: (declaration.toList ++ (render xs).toList) := by
    simp only [String.toList_append, List.append_assoc]
    rfl
  have hSkipped : ReadAs ("<" ++ declaration ++ render xs).toList (tokensOf xs) := by
    rw [hChars]
    exact ReadAs.skip hRead (readAs_render_self xs)
  rw [hSkipped.collect_eq, gather_eq_map_valuesAt, forestOf_tokensOf]

end PatentFilter.Specimen

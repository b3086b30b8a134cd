import PatentFilter.Proofs.Markup.Rendering

/-!
# Simpler spellings

Comments and declarations may be left out, attributes too, and a marked section may be written as
plain text where it could stand as such. Behind a finished beginning no value changes by it,
whatever follows.
-/

namespace PatentFilter.Markup

/-- The first text may be written as the second one. -/
inductive Simplifies : String → String → Prop
  | comment {content : String} (hEnd : ¬ ['-', '-', '>'] <:+: content.toList) :
    Simplifies ("<!--" ++ content ++ "-->") ""
  | declaration {content : String} (hEnd : '>' ∉ content.toList)
    (hComment : ¬ ['-', '-'] <+: content.toList)
    (hSection : ¬ ['[', 'C', 'D', 'A', 'T', 'A', '['] <+: content.toList) :
    Simplifies ("<!" ++ content ++ ">") ""
  | marked {content : String} (hText : '<' ∉ content.toList)
    (hEnd : ¬ [']', ']', '>'] <:+: content.toList) :
    Simplifies ("<![CDATA[" ++ content ++ "]]>") content
  | attributes {name : String} (hName : IsStartName name) (attributes : Attributes) :
    Simplifies ("<" ++ name ++ attributes.text ++ ">") ("<" ++ name ++ ">")

theorem read?_declaration_of_notMem {content : List Char} (hEnd : '>' ∉ content)
    (hComment : ¬ ['-', '-'] <+: content)
    (hSection : ¬ ['[', 'C', 'D', 'A', 'T', 'A', '['] <+: content) (rest : List Char) :
    Token.read? ('!' :: (content ++ '>' :: rest)) = some (.skipped, rest) := by
  have hMark : ∀ mark : List Char, '>' ∉ mark → ¬ mark <+: content →
      ¬ '!' :: mark <+: '!' :: (content ++ '>' :: rest) := by
    intro mark hMem hNot hPrefix
    exact hNot (prefix_of_prefix_append_cons hMem (List.cons_prefix_cons.mp hPrefix).2)
  have hCut : cutAt? ['>'] (('!' :: content) ++ '>' :: rest) = some ('!' :: content, rest) := by
    apply cutAt?_of_notMem
    simp [hEnd]
  exact Token.read?_declaration (hMark _ (by decide) hSection) (hMark _ (by decide) hComment)
    (.inl rfl) hCut

theorem readAs_startTag {name : String} (hName : IsStartName name) (attributes : Attributes)
    {rest : List Char} {ts : List Token} (h : ReadAs rest ts) :
    ReadAs (("<" ++ name ++ attributes.text ++ ">").toList ++ rest) (.opening name :: ts) := by
  have hChars : ("<" ++ name ++ attributes.text ++ ">").toList ++ rest =
      '<' :: (name.toList ++ (attributes.text.toList ++ '>' :: rest)) := by
    simp
  rw [hChars]
  exact ReadAs.construct (hName.read?_opening attributes rest) h

/-- Both spellings have the same tokens, but for what is skipped and where texts divide. -/
theorem Simplifies.exists_readAs {long short : String} (h : Simplifies long short)
    (rest : List Char) :
    ∃ ts, ReadAs (long.toList ++ rest) ts ∧ ReadAs (short.toList ++ rest) ts := by
  cases h with
  | @comment content hEnd =>
    exact ⟨tokens rest, readAs_itemRender (.comment ⟨content, hEnd⟩) (ReadAs.refl rest),
      ReadAs.refl rest⟩
  | @declaration content hEnd hComment hSection =>
    have hRead := read?_declaration_of_notMem hEnd hComment hSection rest
    have hChars : ("<!" ++ content ++ ">").toList ++ rest =
        '<' :: '!' :: (content.toList ++ '>' :: rest) := by
      simp
    refine ⟨tokens rest, ?_, ReadAs.refl rest⟩
    rw [hChars]
    exact ReadAs.skip hRead (ReadAs.refl rest)
  | marked hText hEnd =>
    exact ⟨_, readAs_itemRender (.marked ⟨short, hEnd⟩) (ReadAs.refl rest),
      readAs_itemRender (.text ⟨short, hText⟩) (ReadAs.refl rest)⟩
  | attributes hName attributes =>
    refine ⟨_, readAs_startTag hName attributes (ReadAs.refl rest), ?_⟩
    have hPlain := readAs_startTag hName ⟨"", isAttributes_empty⟩ (ReadAs.refl rest)
    rwa [String.append_empty] at hPlain

/-- A simpler spelling changes no value, be the rest in good order or not. -/
theorem collect_of_simplifies {p long short : String} (hp : Finished p.toList)
    (h : Simplifies long short) (s : String) (paths : List Path) :
    collect paths (p ++ long ++ s) = collect paths (p ++ short ++ s) := by
  obtain ⟨ts, hLong, hShort⟩ := h.exists_readAs s.toList
  rw [← String.toList_append] at hLong hShort
  rw [String.append_assoc, String.append_assoc, hp.collect_append hLong,
    hp.collect_append hShort]

/-- A comment whose content overlaps its end mark; a `>` and a quote in quotes; behind them an
unfinished tag. -/
theorem collect_of_simplifies_overlapping :
    Finished "<a></x>u<b>".toList ∧
    Simplifies "<!--->--->" "" ∧ Simplifies "<c t='>\"'>" "<c>" ∧
    collect [⟨["a"]⟩, ⟨["a", "b"]⟩] "<a></x>u<b><!--->--->v</b><" =
      collect [⟨["a"]⟩, ⟨["a", "b"]⟩] "<a></x>u<b>v</b><" ∧
    collect [⟨["a"]⟩, ⟨["a", "b"]⟩] "<a></x>u<b><c t='>\"'>v</b><" =
      collect [⟨["a"]⟩, ⟨["a", "b"]⟩] "<a></x>u<b><c>v</b><" := by
  have hFinished : Finished "<a></x>u<b>".toList := by decide +kernel
  have hComment : Simplifies ("<!--" ++ "->-" ++ "-->") "" := .comment (by decide)
  have hClosed : QuotesClosed (" t=".toList ++ '\'' :: (['>', '"'] ++ '\'' :: [])) :=
    quotesClosed_append (by simp) (.quoted (.inr rfl) (by decide) .nil)
  have hBlank : Text.isBlank ' ' = true := by decide
  have hName : IsTagName "c" := by decide
  have hAttributes : Simplifies "<c t='>\"'>" "<c>" :=
    Simplifies.attributes hName.isStartName ⟨" t='>\"'", by simp [hBlank], hClosed, by decide⟩
  refine ⟨hFinished, hComment, hAttributes, ?_, ?_⟩
  · exact collect_of_simplifies hFinished hComment "v</b><" _
  · exact collect_of_simplifies hFinished hAttributes "v</b><" _

end PatentFilter.Markup

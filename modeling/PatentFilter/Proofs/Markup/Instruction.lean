import PatentFilter.Proofs.Markup.OffPath

/-!
# Instructions

An instruction is written between `<?` and `?>`, but it is read to the first `>` behind the `<?`,
as a declaration is. One with a `>` in its content is therefore left too early, and what stands
behind that `>` is read as part of the document, the end mark included.
-/

namespace PatentFilter.Markup

def instruction (content : String) : String := "<?" ++ content ++ "?>"

theorem read?_instruction {inner : List Char} (h : '>' ∉ inner) (rest : List Char) :
    Token.read? ('?' :: (inner ++ '>' :: rest)) = some (.skipped, rest) := by
  have hMark : ∀ mark : List Char, ¬ '!' :: mark <+: '?' :: (inner ++ '>' :: rest) := by
    intro mark hPrefix
    have hHead := (List.cons_prefix_cons.mp hPrefix).1
    revert hHead
    decide
  have hCut : cutAt? ['>'] (('?' :: inner) ++ '>' :: rest) = some ('?' :: inner, rest) := by
    apply cutAt?_of_notMem
    simp [h]
  exact Token.read?_declaration (hMark _) (hMark _) (.inr rfl) hCut

theorem readAs_of_first_gt {inner : List Char} (h : '>' ∉ inner) {rest : List Char}
    {ts : List Token} (hRest : ReadAs rest ts) :
    ReadAs ('<' :: '?' :: (inner ++ '>' :: rest)) ts :=
  ReadAs.skip (read?_instruction h rest) hRest

theorem readAs_instruction {content : String} (h : '>' ∉ content.toList) {rest : String}
    {ts : List Token} (hRest : ReadAs rest.toList ts) :
    ReadAs (instruction content ++ rest).toList ts := by
  have hInner : '>' ∉ content.toList ++ ['?'] := by simp [h]
  have hChars : (instruction content ++ rest).toList =
      '<' :: '?' :: ((content.toList ++ ['?']) ++ '>' :: rest.toList) := by
    simp [instruction]
  rw [hChars]
  exact readAs_of_first_gt hInner hRest

theorem readAs_instruction_cut {before : String} (h : '>' ∉ before.toList) (after : String)
    {rest : String} {ts : List Token} (hRest : ReadAs (after ++ "?>" ++ rest).toList ts) :
    ReadAs (instruction (before ++ ">" ++ after) ++ rest).toList ts := by
  have hChars : (instruction (before ++ ">" ++ after) ++ rest).toList =
      '<' :: '?' :: (before.toList ++ '>' :: (after ++ "?>" ++ rest).toList) := by
    simp [instruction]
  rw [hChars]
  exact readAs_of_first_gt h hRest

theorem exists_eq_append_gt {content : String} (h : '>' ∈ content.toList) :
    ∃ before after : String, content = before ++ ">" ++ after ∧ '>' ∉ before.toList := by
  obtain ⟨before, after, hEq, hBefore⟩ := List.eq_append_cons_of_mem h
  refine ⟨String.ofList before, String.ofList after, ?_, by simpa using hBefore⟩
  apply String.toList_injective
  simp [hEq]

namespace Growth

theorem readAt_addText_ne {root : String} {names : List String} {g : Growth}
    (hNames : g.names = root :: names) {s : String} (hs : s ≠ "") :
    readAt false [] root (g.addText s).forest ≠ readAt false [] root g.forest := by
  -- the outermost open element is a root, and every root of its name counts
  have hFeeds : g.feeds false [] root = true := by
    cases g with
    | top trees => cases hNames
    | inside earlier n inner =>
      obtain ⟨rfl, _⟩ := List.cons.inj hNames
      simp [feeds, barred]
  obtain ⟨front, last, hBefore, hAfter⟩ := readAt_addText_of_feeds s hFeeds
  rw [hBefore, hAfter]
  intro hSame
  have hLast : last ++ s = last ++ "" := by simpa using hSame
  exact hs ((String.append_right_inj last).mp hLast)

end Growth

theorem collect_append_text_ne {p : String} (hp : Finished p.toList) {root : String}
    {names : List String} (hOpen : openAfter p = root :: names) {text : String}
    (hText : '<' ∉ text.toList) (hNonempty : text ≠ "") :
    collect [⟨[root]⟩] (p ++ text) ≠ collect [⟨[root]⟩] p := by
  have hRest : ReadAs text.toList [.text text] := by
    have hAlone := ReadAs.text hText (.refl [])
    rwa [List.append_nil, tokens_nil, String.ofList_toList] at hAlone
  rw [hp.collect_append hRest, collect_eq_gather, gather_singleton, gather_singleton]
  intro hSame
  have hValues := (List.cons.inj hSame).1
  rw [← List.nil_append [root], valuesAt_concat, valuesAt_concat, forestOf, List.foldl_append]
    at hValues
  exact Growth.readAt_addText_ne ((names_foldl_tokens p).trans hOpen) hNonempty hValues

/-- Behind a finished beginning, an instruction without a `>` in its content changes no value. Of
any other one, what stands behind the first `>` is read in its place. So inside an element, and
with no markup in its content, it is skipped whole in all documents only if it has no `>` in its
content. -/
theorem collect_instruction {p : String} (hp : Finished p.toList) (content : String) :
    ('>' ∉ content.toList → ∀ s paths,
      collect paths (p ++ instruction content ++ s) = collect paths (p ++ s)) ∧
    (∀ before after, content = before ++ ">" ++ after → '>' ∉ before.toList → ∀ s paths,
      collect paths (p ++ instruction content ++ s) = collect paths (p ++ after ++ "?>" ++ s)) ∧
    (openAfter p ≠ [] → '<' ∉ content.toList →
      ((∀ s paths, collect paths (p ++ instruction content ++ s) = collect paths (p ++ s)) ↔
        '>' ∉ content.toList)) := by
  have hWhole : '>' ∉ content.toList → ∀ s paths,
      collect paths (p ++ instruction content ++ s) = collect paths (p ++ s) := by
    intro h s paths
    rw [String.append_assoc, hp.collect_append (readAs_instruction h (.refl s.toList)),
      hp.collect_append (.refl s.toList)]
  have hCut : ∀ before after, content = before ++ ">" ++ after → '>' ∉ before.toList →
      ∀ s paths, collect paths (p ++ instruction content ++ s) =
        collect paths (p ++ after ++ "?>" ++ s) := by
    rintro before after rfl h s paths
    have hRest := ReadAs.refl (after ++ "?>" ++ s).toList
    have hAssoc : p ++ after ++ "?>" ++ s = p ++ (after ++ "?>" ++ s) := by
      simp only [String.append_assoc]
    rw [hAssoc, String.append_assoc, hp.collect_append (readAs_instruction_cut h after hRest),
      hp.collect_append hRest]
  refine ⟨hWhole, hCut, fun hOpen hText => ⟨fun hSame hMem => ?_, hWhole⟩⟩
  obtain ⟨root, names, hNames⟩ := List.exists_cons_of_ne_nil hOpen
  obtain ⟨before, after, hContent, hBefore⟩ := exists_eq_append_gt hMem
  have hAfter : '<' ∉ after.toList := fun hLt => hText (by simp [hContent, hLt])
  have hLeft : '<' ∉ (after ++ "?>").toList := by simp [hAfter]
  have hNonempty : after ++ "?>" ≠ "" := by simp
  apply collect_append_text_ne hp hNames hLeft hNonempty
  have hEnd := (hCut before after hContent hBefore "" [⟨[root]⟩]).symm.trans (hSame "" [⟨[root]⟩])
  rwa [String.append_empty, String.append_empty, String.append_assoc] at hEnd

/-- An instruction with a quote and one with a comparison, inside a captured element. -/
theorem collect_instruction_captured :
    Finished "<a>t<b>u".toList ∧ openAfter "<a>t<b>u" ≠ [] ∧
    collect [⟨["a", "b"]⟩] ("<a>t<b>u" ++ instruction "q \"" ++ "v</b>w") =
      collect [⟨["a", "b"]⟩] "<a>t<b>uv</b>w" ∧
    collect [⟨["a", "b"]⟩] ("<a>t<b>u" ++ instruction "x > y" ++ "v</b>w") =
      collect [⟨["a", "b"]⟩] "<a>t<b>u y?>v</b>w" ∧
    ¬ ∀ s paths, collect paths ("<a>t<b>u" ++ instruction "x > y" ++ s) =
      collect paths ("<a>t<b>u" ++ s) := by
  have hFinished : Finished "<a>t<b>u".toList := by decide +kernel
  have hOpen : openAfter "<a>t<b>u" ≠ [] := by decide +kernel
  refine ⟨hFinished, hOpen, ?_, ?_, ?_⟩
  · exact (collect_instruction hFinished "q \"").1 (by decide) "v</b>w" _
  · exact (collect_instruction hFinished "x > y").2.1 "x " " y" rfl (by decide) "v</b>w" _
  · rw [(collect_instruction hFinished "x > y").2.2 hOpen (by decide)]
    decide

/-- The content has no `?>`, and is not skipped whole. -/
theorem instruction_read_as_text :
    Finished "<a><b>".toList ∧ ¬ ['?', '>'] <:+: "x > y".toList ∧
    collect [⟨["a", "b"]⟩] ("<a><b>" ++ "<?" ++ "x > y" ++ "?>" ++ "</b></a>") = [[" y?>"]] ∧
    collect [⟨["a", "b"]⟩] ("<a><b>" ++ "</b></a>") = [[""]] := by
  decide +kernel

end PatentFilter.Markup

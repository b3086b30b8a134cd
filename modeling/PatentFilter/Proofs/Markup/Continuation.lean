import Mathlib.Data.List.Infix
import Mathlib.Data.List.TakeWhile
import PatentFilter.Markup.Capture

/-!
# What follows a construct

A construct that has come to its end is read alike whatever stands behind it. So a document falls
into a part whose tokens are settled and a remainder in which no construct comes to its end; more
input can change the reading of the remainder only.
-/

namespace PatentFilter.Markup

theorem exists_of_map_fst {α β γ : Type} {f : α → β} {o : Option (α × γ)} {b : β} {rest : γ}
    (h : (o.map fun p => (f p.1, p.2)) = some (b, rest)) : ∃ a, o = some (a, rest) ∧ f a = b := by
  obtain ⟨⟨a, _⟩, hSome, hPair⟩ := Option.map_eq_some_iff.mp h
  obtain ⟨hFst, rfl⟩ := Prod.mk.inj hPair
  exact ⟨a, hSome, hFst⟩

/-- A stem goes on over no character that is not in it. -/
theorem prefix_of_prefix_append_cons {stem front rest : List Char} {c : Char} (hStem : c ∉ stem)
    (h : stem <+: front ++ c :: rest) : stem <+: front := by
  rcases List.prefix_or_prefix_of_prefix h (List.prefix_append front _) with hIn | ⟨beyond, rfl⟩
  · exact hIn
  · have hBeyond : beyond <+: c :: rest := (List.prefix_append_right_inj _).mp h
    cases beyond with
    | nil => rw [List.append_nil]
    | cons d beyond =>
      obtain ⟨rfl, _⟩ := List.cons_prefix_cons.mp hBeyond
      simp at hStem

theorem eq_append_of_cutAt? {mark cs a b : List Char} (h : cutAt? mark cs = some (a, b)) :
    cs = a ++ (mark ++ b) := by
  induction cs generalizing a with
  | nil => simp [cutAt?] at h
  | cons c cs ih =>
    unfold cutAt? at h
    split at h
    · next hMark =>
      obtain ⟨rest, hRest⟩ := List.isPrefixOf_iff_prefix.mp hMark
      simp only [Option.some.injEq, Prod.mk.injEq] at h
      obtain ⟨rfl, rfl⟩ := h
      simp [← hRest]
    · obtain ⟨a', hCut, rfl⟩ := exists_of_map_fst h
      rw [List.cons_append, ← ih hCut]

theorem eq_append_of_cutTag? {q : Option Char} {cs a b : List Char}
    (h : cutTag? q cs = some (a, b)) : cs = a ++ '>' :: b := by
  induction cs generalizing q a with
  | nil => cases q <;> simp [cutTag?] at h
  | cons c cs ih =>
    have step : ∀ q' : Option Char, ((cutTag? q' cs).map fun p => (c :: p.1, p.2)) = some (a, b) →
        c :: cs = a ++ '>' :: b := by
      intro q' hMap
      obtain ⟨a', hCut, rfl⟩ := exists_of_map_fst hMap
      rw [List.cons_append, ← ih hCut]
    cases q with
    | some q => exact step _ h
    | none =>
      unfold cutTag? at h
      split at h
      · next hc =>
        cases h
        rw [hc]
        rfl
      · exact step _ h

/-- What stands behind the mark has no part in finding it. -/
theorem cutAt?_change_rest {mark a b : List Char} (hNe : mark ≠ [])
    (h : cutAt? mark (a ++ (mark ++ b)) = some (a, b)) (other : List Char) :
    cutAt? mark (a ++ (mark ++ other)) = some (a, other) := by
  induction a with
  | nil =>
    obtain ⟨c, cs, rfl⟩ := List.exists_cons_of_ne_nil hNe
    have hMark : (c :: cs).isPrefixOf (c :: cs ++ other) = true := by simp
    rw [List.nil_append, List.cons_append, cutAt?, ← List.cons_append, if_pos hMark, List.drop_left]
  | cons c a ih =>
    rw [List.cons_append, cutAt?] at h
    split at h
    · obtain ⟨hNil, _⟩ := Prod.mk.inj (Option.some.inj h)
      cases hNil
    · next hNot =>
      obtain ⟨a', hCut, hCons⟩ := exists_of_map_fst h
      obtain ⟨_, rfl⟩ := List.cons.inj hCons
      -- the input up to the end of the mark is long enough to tell that the mark is not here
      have hLength : mark.length ≤ (c :: (a' ++ mark)).length := by
        simp only [List.length_cons, List.length_append]
        omega
      have hOther : ¬ mark.isPrefixOf (c :: (a' ++ (mark ++ other))) = true := by
        rw [List.isPrefixOf_iff_prefix, ← List.append_assoc, ← List.cons_append] at hNot ⊢
        intro hPrefix
        have hHere := List.prefix_of_prefix_length_le hPrefix (List.prefix_append ..) hLength
        exact hNot (hHere.trans (List.prefix_append ..))
      rw [List.cons_append, cutAt?, if_neg hOther, ih hCut]
      rfl

theorem cutTag?_change_rest {q : Option Char} {a b : List Char}
    (h : cutTag? q (a ++ '>' :: b) = some (a, b)) (other : List Char) :
    cutTag? q (a ++ '>' :: other) = some (a, other) := by
  induction a generalizing q with
  | nil =>
    cases q with
    | none => rfl
    | some q =>
      obtain ⟨a', _, hCons⟩ := exists_of_map_fst h
      cases hCons
  | cons c a ih =>
    have step : ∀ q' : Option Char,
        ((cutTag? q' (a ++ '>' :: b)).map fun p => (c :: p.1, p.2)) = some (c :: a, b) →
        ((cutTag? q' (a ++ '>' :: other)).map fun p => (c :: p.1, p.2)) =
          some (c :: a, other) := by
      intro q' hMap
      obtain ⟨a', hCut, hCons⟩ := exists_of_map_fst hMap
      obtain ⟨_, rfl⟩ := List.cons.inj hCons
      rw [ih hCut]
      rfl
    rw [List.cons_append] at h ⊢
    cases q with
    | some q => exact step _ h
    | none =>
      unfold cutTag? at h ⊢
      split at h
      · cases h
      · next hc =>
        rw [if_neg hc]
        exact step _ h

namespace Token

variable {a body inner rest : List Char} {t : Token}

theorem read?_section (h : cutAt? [']', ']', '>'] inner = some (a, rest)) :
    read? (sectionMark ++ inner) = some (text (String.ofList a), rest) := by
  have hMark : sectionMark.isPrefixOf (sectionMark ++ inner) = true := by simp
  rw [read?, if_pos hMark, List.drop_left, h]
  rfl

theorem read?_comment (h : cutAt? ['-', '-', '>'] inner = some (a, rest)) :
    read? (commentMark ++ inner) = some (skipped, rest) := by
  have hSection : ¬ sectionMark.isPrefixOf (commentMark ++ inner) = true := by
    simp [sectionMark, commentMark]
  have hMark : commentMark.isPrefixOf (commentMark ++ inner) = true := by simp
  rw [read?, if_neg hSection, if_pos hMark, List.drop_left, h]
  rfl

theorem read?_declaration (hSection : ¬ sectionMark <+: body) (hComment : ¬ commentMark <+: body)
    (hHead : body.head? = some '!' ∨ body.head? = some '?')
    (h : cutAt? ['>'] body = some (a, rest)) : read? body = some (skipped, rest) := by
  rw [← List.isPrefixOf_iff_prefix] at hSection hComment
  rw [read?, if_neg hSection, if_neg hComment, if_pos hHead, h]
  rfl

theorem not_prefix_of_head {mark : List Char}
    (hHead : ¬ (body.head? = some '!' ∨ body.head? = some '?')) (hFirst : mark.head? = some '!') :
    ¬ mark <+: body := by
  rintro ⟨more, rfl⟩
  cases mark with
  | nil => cases hFirst
  | cons c mark => exact hHead (.inl hFirst)

theorem read?_tag (hHead : ¬ (body.head? = some '!' ∨ body.head? = some '?'))
    (h : cutTag? none body = some (a, rest)) : read? body = some (ofTag a, rest) := by
  have hSection : ¬ sectionMark <+: body := not_prefix_of_head hHead rfl
  have hComment : ¬ commentMark <+: body := not_prefix_of_head hHead rfl
  rw [← List.isPrefixOf_iff_prefix] at hSection hComment
  rw [read?, if_neg hSection, if_neg hComment, if_neg hHead, h]
  rfl

/-- Which construct was read: a marked section, a comment, a declaration or instruction, a tag. -/
theorem read?_cases (h : read? body = some (t, rest)) :
    (∃ inner a, body = sectionMark ++ inner ∧ cutAt? [']', ']', '>'] inner = some (a, rest) ∧
      t = text (String.ofList a)) ∨
    (∃ inner a, body = commentMark ++ inner ∧ cutAt? ['-', '-', '>'] inner = some (a, rest) ∧
      t = skipped) ∨
    (∃ a, ¬ sectionMark <+: body ∧ ¬ commentMark <+: body ∧
      (body.head? = some '!' ∨ body.head? = some '?') ∧ cutAt? ['>'] body = some (a, rest) ∧
      t = skipped) ∨
    ∃ a, ¬ (body.head? = some '!' ∨ body.head? = some '?') ∧
      cutTag? none body = some (a, rest) ∧ t = ofTag a := by
  unfold read? at h
  split at h
  · next hMark =>
    obtain ⟨inner, rfl⟩ := List.isPrefixOf_iff_prefix.mp hMark
    rw [List.drop_left] at h
    obtain ⟨a, hCut, rfl⟩ := exists_of_map_fst (f := fun a => text (String.ofList a)) h
    exact .inl ⟨inner, a, rfl, hCut, rfl⟩
  · next hSection =>
    rw [List.isPrefixOf_iff_prefix] at hSection
    split at h
    · next hMark =>
      obtain ⟨inner, rfl⟩ := List.isPrefixOf_iff_prefix.mp hMark
      rw [List.drop_left] at h
      obtain ⟨a, hCut, rfl⟩ := exists_of_map_fst (f := fun _ => skipped) h
      exact .inr (.inl ⟨inner, a, rfl, hCut, rfl⟩)
    · next hComment =>
      rw [List.isPrefixOf_iff_prefix] at hComment
      split at h
      · next hHead =>
        obtain ⟨a, hCut, rfl⟩ := exists_of_map_fst (f := fun _ => skipped) h
        exact .inr (.inr (.inl ⟨a, hSection, hComment, hHead, hCut, rfl⟩))
      · next hHead =>
        obtain ⟨a, hCut, rfl⟩ := exists_of_map_fst h
        exact .inr (.inr (.inr ⟨a, hHead, hCut, rfl⟩))

/-- A construct ends with `>`. -/
theorem exists_eq_append_of_read? (h : read? body = some (t, rest)) :
    ∃ inner, body = inner ++ '>' :: rest := by
  rcases read?_cases h with ⟨inner, a, rfl, hCut, _⟩ | ⟨inner, a, rfl, hCut, _⟩ |
    ⟨a, _, _, _, hCut, _⟩ | ⟨a, _, hCut, _⟩
  · exact ⟨sectionMark ++ a ++ [']', ']'], by rw [eq_append_of_cutAt? hCut]; simp⟩
  · exact ⟨commentMark ++ a ++ ['-', '-'], by rw [eq_append_of_cutAt? hCut]; simp⟩
  · exact ⟨a, eq_append_of_cutAt? hCut⟩
  · exact ⟨a, eq_append_of_cutTag? hCut⟩

/-- A construct is read alike whatever stands behind it. -/
theorem read?_change_rest (h : read? (inner ++ '>' :: rest) = some (t, rest))
    (other : List Char) : read? (inner ++ '>' :: other) = some (t, other) := by
  have hEnd : ∀ cs : List Char, inner ++ '>' :: rest = cs ++ '>' :: rest → inner = cs :=
    fun cs hEq => List.append_cancel_right hEq
  rcases read?_cases h with ⟨inner', a, hBody, hCut, rfl⟩ | ⟨inner', a, hBody, hCut, rfl⟩ |
    ⟨a, hSection, hComment, hHead, hCut, rfl⟩ | ⟨a, hHead, hCut, rfl⟩
  · obtain rfl := eq_append_of_cutAt? hCut
    obtain rfl := hEnd (sectionMark ++ a ++ [']', ']']) (by simpa using hBody)
    have hRead := read?_section (cutAt?_change_rest (by simp) hCut other)
    simpa using hRead
  · obtain rfl := eq_append_of_cutAt? hCut
    obtain rfl := hEnd (commentMark ++ a ++ ['-', '-']) (by simpa using hBody)
    have hRead := read?_comment (cutAt?_change_rest (by simp) hCut other)
    simpa using hRead
  · obtain rfl := hEnd a (eq_append_of_cutAt? hCut)
    -- a mark without angle brackets is not completed by what follows an angle bracket
    have hMark : ∀ mark : List Char, '>' ∉ mark → ¬ mark <+: inner ++ '>' :: rest →
        ¬ mark <+: inner ++ '>' :: other := by
      intro mark hMem hNot hPrefix
      exact hNot ((prefix_of_prefix_append_cons hMem hPrefix).trans (List.prefix_append ..))
    apply read?_declaration (a := inner)
    · exact hMark sectionMark (by decide) hSection
    · exact hMark commentMark (by decide) hComment
    · cases inner with
      | nil => simp at hHead
      | cons c inner => exact hHead
    · exact cutAt?_change_rest (by simp) hCut other
  · obtain rfl := hEnd a (eq_append_of_cutTag? hCut)
    apply read?_tag
    · cases inner with
      | nil => simp
      | cons c inner => exact hHead
    · exact cutTag?_change_rest hCut other

theorem read?_append (h : read? body = some (t, rest)) (more : List Char) :
    read? (body ++ more) = some (t, rest ++ more) := by
  obtain ⟨inner, rfl⟩ := exists_eq_append_of_read? h
  rw [List.append_assoc, List.cons_append]
  exact read?_change_rest h (rest ++ more)

end Token

theorem notMem_or_eq_append (cs : List Char) :
    '<' ∉ cs ∨ ∃ front body, cs = front ++ '<' :: body ∧ '<' ∉ front := by
  by_cases hMem : '<' ∈ cs
  · obtain ⟨front, body, hEq, hFront⟩ := List.eq_append_cons_of_mem hMem
    exact .inr ⟨front, body, hEq, hFront⟩
  · exact .inl hMem

theorem bne_of_notMem {front : List Char} (h : '<' ∉ front) : ∀ c ∈ front, (c != '<') = true := by
  intro c hc
  rw [bne_iff_ne]
  rintro rfl
  exact h hc

theorem takeWhile_of_notMem {front : List Char} (h : '<' ∉ front) :
    front.takeWhile (· != '<') = front :=
  List.takeWhile_eq_self_iff.mpr (bne_of_notMem h)

theorem dropWhile_of_notMem {front : List Char} (h : '<' ∉ front) :
    front.dropWhile (· != '<') = [] :=
  List.dropWhile_eq_nil_iff.mpr (bne_of_notMem h)

theorem takeWhile_append_lt {front : List Char} (h : '<' ∉ front) (body : List Char) :
    (front ++ '<' :: body).takeWhile (· != '<') = front := by
  rw [List.takeWhile_append_of_pos (bne_of_notMem h)]
  simp

theorem dropWhile_append_lt {front : List Char} (h : '<' ∉ front) (body : List Char) :
    (front ++ '<' :: body).dropWhile (· != '<') = '<' :: body := by
  rw [List.dropWhile_append_of_pos (bne_of_notMem h)]
  simp

theorem readStep_of_notMem {front : List Char} (h : '<' ∉ front) :
    readStep front = ([.text (String.ofList front)], []) := by
  unfold readStep
  rw [takeWhile_of_notMem h, dropWhile_of_notMem h]

theorem readStep_append {front : List Char} (h : '<' ∉ front) (body : List Char) :
    readStep (front ++ '<' :: body) =
      match Token.read? body with
      | none => ([.text (String.ofList front), .text (String.ofList ('<' :: body))], [])
      | some (t, rest) => ([.text (String.ofList front), t], rest) := by
  cases hRead : Token.read? body with
  | none => simp only [readStep, takeWhile_append_lt h, dropWhile_append_lt h, hRead]
  | some p => simp only [readStep, takeWhile_append_lt h, dropWhile_append_lt h, hRead]

theorem tokens_nil : tokens [] = [] := by
  rw [tokens, dif_pos rfl]

theorem tokens_of_ne_nil {cs : List Char} (h : cs ≠ []) :
    tokens cs = (readStep cs).1 ++ tokens (readStep cs).2 := by
  rw [tokens, dif_neg h]

theorem tokens_append_of_read? {front body rest : List Char} {t : Token} (hFront : '<' ∉ front)
    (h : Token.read? body = some (t, rest)) :
    tokens (front ++ '<' :: body) = .text (String.ofList front) :: t :: tokens rest := by
  rw [tokens_of_ne_nil (by simp), readStep_append hFront, h]
  rfl

theorem exists_tokens_eq_text {cs : List Char} (h : cs ≠ []) :
    ∃ ts, tokens cs = .text (String.ofList (cs.takeWhile (· != '<'))) :: ts := by
  rw [tokens_of_ne_nil h, readStep]
  split
  · exact ⟨_, rfl⟩
  · split
    · exact ⟨_, rfl⟩
    · exact ⟨_, rfl⟩

/-- The input has no `<`, or the first one starts a construct without an end. -/
def Unfinished (cs : List Char) : Prop :=
  ∀ front body, cs = front ++ '<' :: body → '<' ∉ front → Token.read? body = none

theorem exists_read?_of_not_unfinished {cs : List Char} (h : ¬ Unfinished cs) :
    ∃ front body t rest, cs = front ++ '<' :: body ∧ '<' ∉ front ∧
      Token.read? body = some (t, rest) := by
  simp only [Unfinished, not_forall] at h
  obtain ⟨front, body, hEq, hFront, hRead⟩ := h
  obtain ⟨⟨t, rest⟩, hRead⟩ := Option.ne_none_iff_exists'.mp hRead
  exact ⟨front, body, t, rest, hEq, hFront, hRead⟩

theorem Unfinished.text_append {text cs : List Char} (hText : '<' ∉ text) (h : Unfinished cs) :
    Unfinished (text ++ cs) := by
  intro front body hEq hFront
  rcases List.append_eq_append_iff.mp hEq with ⟨front', rfl, hCs⟩ | ⟨inner, rfl, hCs⟩
  · apply h front' body hCs
    intro hMem
    exact hFront (List.mem_append_right text hMem)
  · cases inner with
    | nil => exact h [] body hCs.symm List.not_mem_nil
    | cons c inner =>
      obtain ⟨rfl, _⟩ := List.cons.inj hCs
      simp at hText

theorem tokens_of_unfinished {cs : List Char} (h : Unfinished cs) :
    ∃ texts, tokens cs = texts.map .text ∧ String.join texts = String.ofList cs := by
  by_cases hNil : cs = []
  · subst hNil
    exact ⟨[], tokens_nil, rfl⟩
  rw [tokens_of_ne_nil hNil]
  rcases notMem_or_eq_append cs with hMem | ⟨front, body, rfl, hFront⟩
  · refine ⟨[String.ofList cs], ?_, ?_⟩
    · rw [readStep_of_notMem hMem, tokens_nil]
      rfl
    · simp [String.join]
  · refine ⟨[String.ofList front, String.ofList ('<' :: body)], ?_, ?_⟩
    · rw [readStep_append hFront, h front body rfl hFront, tokens_nil]
      rfl
    · simp [String.join, String.ofList_append]

/-- A document falls into a part with settled tokens and an unfinished remainder. -/
theorem exists_settled (cs : List Char) :
    ∃ ts rest, Unfinished rest ∧ ∀ more, tokens (cs ++ more) = ts ++ tokens (rest ++ more) := by
  induction hLength : cs.length using Nat.strong_induction_on generalizing cs with
  | _ n ih =>
    by_cases hUnfinished : Unfinished cs
    · exact ⟨[], cs, hUnfinished, fun more => rfl⟩
    · obtain ⟨front, body, t, rest, rfl, hFront, hRead⟩ :=
        exists_read?_of_not_unfinished hUnfinished
      have hShorter : rest.length < n := by
        have := Token.length_le_of_read? hRead
        simp only [← hLength, List.length_append, List.length_cons]
        omega
      obtain ⟨ts, remainder, hRemainder, hTokens⟩ := ih _ hShorter rest rfl
      refine ⟨.text (String.ofList front) :: t :: ts, remainder, hRemainder, fun more => ?_⟩
      rw [List.append_assoc, List.cons_append,
        tokens_append_of_read? hFront (Token.read?_append hRead more), hTokens]
      rfl

namespace Progress

theorem addText_empty (p : Progress) : p.addText "" = p := by
  simp [addText]

theorem addText_addText (s t : String) (p : Progress) :
    (p.addText s).addText t = p.addText (s ++ t) := by
  simp [addText, String.append_assoc, Function.comp_def]

theorem foldl_step_texts (texts : List String) (p : Progress) :
    (texts.map Token.text).foldl step p = p.addText (String.join texts) := by
  induction texts generalizing p with
  | nil => exact (addText_empty p).symm
  | cons s texts ih =>
    rw [List.map_cons, List.foldl_cons, ih, String.join_cons, ← addText_addText]
    rfl

variable {p : Progress}

theorem foldl_tokens_of_unfinished {cs : List Char} (h : Unfinished cs) :
    (tokens cs).foldl step p = p.addText (String.ofList cs) := by
  obtain ⟨texts, hTokens, hJoin⟩ := tokens_of_unfinished h
  rw [hTokens, foldl_step_texts, hJoin]

theorem foldl_tokens_append_of_read? {front body rest : List Char} {t : Token}
    (hFront : '<' ∉ front) (h : Token.read? body = some (t, rest)) :
    (tokens (front ++ '<' :: body)).foldl step p =
      (tokens rest).foldl step ((p.addText (String.ofList front)).step t) := by
  rw [tokens_append_of_read? hFront h, List.foldl_cons, List.foldl_cons]
  rfl

theorem foldl_tokens_of_read? {body rest : List Char} {t : Token}
    (h : Token.read? body = some (t, rest)) :
    (tokens ('<' :: body)).foldl step p = (tokens rest).foldl step (p.step t) := by
  have hFold := foldl_tokens_append_of_read? (p := p) (List.not_mem_nil (a := '<')) h
  rw [String.ofList_nil, addText_empty] at hFold
  exact hFold

/-- Text may be taken off the front, though its token runs on into what follows. -/
theorem foldl_tokens_append_text {text : List Char} (hText : '<' ∉ text) (cs : List Char) :
    (tokens (text ++ cs)).foldl step p =
      (tokens cs).foldl step (p.addText (String.ofList text)) := by
  by_cases hUnfinished : Unfinished cs
  · have hBoth := hUnfinished.text_append hText
    rw [foldl_tokens_of_unfinished hBoth, foldl_tokens_of_unfinished hUnfinished, addText_addText,
      String.ofList_append]
  · obtain ⟨front, body, t, rest, rfl, hFront, hRead⟩ :=
      exists_read?_of_not_unfinished hUnfinished
    have hBoth : '<' ∉ text ++ front := by
      rw [List.mem_append, not_or]
      exact ⟨hText, hFront⟩
    rw [← List.append_assoc, foldl_tokens_append_of_read? hBoth hRead,
      foldl_tokens_append_of_read? hFront hRead, addText_addText, String.ofList_append]

end Progress

end PatentFilter.Markup

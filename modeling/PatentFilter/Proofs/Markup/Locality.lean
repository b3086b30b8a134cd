import PatentFilter.Proofs.Markup.Finished
import PatentFilter.Proofs.Markup.Offsets

/-!
# Constructs are local

What a construct is depends on its own characters only: behind its `>` anything may stand, and a
construct that does not come to its end has no beginning that does. So every turn of the scan
leaves less input, and the tokens of a finished beginning stay when more input follows it.
-/

namespace PatentFilter.Markup

/-! ## Tokens of a finished beginning -/

/-- A token in front of others, a text put together with the text that it meets. -/
def joinText : Token → List Token → List Token
  | .text a, .text b :: ts => .text (a ++ b) :: ts
  | t, ts => t :: ts

/-- The tokens with neighbouring texts put together. -/
def mergeText : List Token → List Token
  | [] => []
  | t :: ts => joinText t (mergeText ts)

theorem mergeText_text_text (a b : String) (ts : List Token) :
    mergeText (.text a :: .text b :: ts) = mergeText (.text (a ++ b) :: ts) := by
  simp only [mergeText]
  cases mergeText ts with
  | nil => rfl
  | cons t ts =>
    cases t with
    | text c => simp [joinText, String.append_assoc]
    | opening name => rfl
    | closing name => rfl
    | skipped => rfl

theorem mergeText_tokens_text {front cs : List Char} (hFront : '<' ∉ front) (hNe : front ≠ []) :
    mergeText (tokens (front ++ cs)) = mergeText (.text (String.ofList front) :: tokens cs) := by
  have hBoth : front ++ cs ≠ [] := by simp [hNe]
  by_cases hNil : cs = []
  · subst hNil
    rw [List.append_nil, tokens_of_ne_nil hNe, readStep_of_notMem hFront, tokens_nil]
    rfl
  rw [tokens_of_ne_nil hBoth, tokens_of_ne_nil hNil]
  rcases notMem_or_eq_append cs with hMem | ⟨text, body, rfl, hText⟩
  · have hMemBoth : '<' ∉ front ++ cs := by
      rw [List.mem_append, not_or]
      exact ⟨hFront, hMem⟩
    rw [readStep_of_notMem hMemBoth, readStep_of_notMem hMem, List.singleton_append,
      List.singleton_append, mergeText_text_text, String.ofList_append]
  · have hTextBoth : '<' ∉ front ++ text := by
      rw [List.mem_append, not_or]
      exact ⟨hFront, hText⟩
    rw [← List.append_assoc, readStep_append hTextBoth, readStep_append hText]
    cases Token.read? body with
    | none =>
      simp only [List.cons_append]
      rw [mergeText_text_text (String.ofList front), String.ofList_append]
    | some p =>
      simp only [List.cons_append]
      rw [mergeText_text_text (String.ofList front), String.ofList_append]

theorem Finished.mergeText_append {front : List Char} (h : Finished front) (cs : List Char) :
    mergeText (tokens (front ++ cs)) = mergeText (tokens front ++ tokens cs) := by
  induction h with
  | @text front hFront =>
    by_cases hNil : front = []
    · subst hNil
      rw [List.nil_append, tokens_nil, List.nil_append]
    · rw [mergeText_tokens_text hFront hNil, tokens_of_ne_nil hNil, readStep_of_notMem hFront,
        tokens_nil]
      rfl
  | @construct front body rest t hFront hRead _ ih =>
    rw [List.append_assoc, List.cons_append,
      tokens_append_of_read? hFront (Token.read?_append hRead cs),
      tokens_append_of_read? hFront hRead, List.cons_append, List.cons_append]
    simp only [mergeText, ih]

namespace Offsets

/-- A construct that comes to its end spans its own characters up to a `>`, and may be followed by
anything. -/
theorem next?_eq_some_some {body : String} {t : Token} {n : Nat}
    (h : next? ("<" ++ body) = some (some (t, n))) :
    (octets ("<" ++ body))[n - 1]? = some '>'.toUInt8 ∧
      ∃ whole rest, cut? ("<" ++ body) n = some (whole, rest) ∧
        ∀ more, next? (whole ++ more) = some (some (t, n)) := by
  rw [next?_append, Option.some.injEq] at h
  obtain ⟨⟨t', rest⟩, hRead, hPair⟩ := Option.map_eq_some_iff.mp h
  obtain ⟨rfl, rfl⟩ := Prod.mk.inj hPair
  obtain ⟨inner, hBody, hCut⟩ := cut?_span hRead
  have hInput : "<" ++ body = String.ofList ('<' :: body.toList) := by
    rw [String.ofList_cons, String.ofList_toList]
    rfl
  rw [← hInput] at hCut
  obtain ⟨hWhole, hSpan⟩ := cut?_eq_some_iff.mp hCut
  constructor
  · have hLast : octets ("<" ++ body) =
        octets (String.ofList ('<' :: inner)) ++ '>'.toUInt8 :: octets (String.ofList rest) := by
      rw [hInput, hBody, ← List.cons_append, String.ofList_append, octets_append,
        octets_cons_of_ascii (c := '>') rfl]
    have hBefore : span body.toList rest - 1 = (octets (String.ofList ('<' :: inner))).length := by
      rw [hSpan, length_octets, ← List.cons_append, String.ofList_append,
        String.utf8ByteSize_append]
      rfl
    rw [hLast, hBefore, List.getElem?_append_right (Nat.le_refl _), Nat.sub_self]
    rfl
  · refine ⟨_, _, hCut, fun more => ?_⟩
    rw [hBody] at hRead
    have hMore : String.ofList ('<' :: (inner ++ ['>'])) ++ more =
        "<" ++ String.ofList (inner ++ '>' :: more.toList) := by
      apply String.toList_inj.mp
      simp
    rw [hMore, next?_append, String.toList_ofList,
      Token.read?_change_rest hRead more.toList, hSpan, Option.map_some, List.append_cons,
      span_eq_of_append]

theorem next?_eq_some_none {front back : String}
    (h : next? ("<" ++ (front ++ back)) = some none) : next? ("<" ++ front) = some none := by
  rw [next?_append, Option.some.injEq, Option.map_eq_none_iff, String.toList_append] at h
  rw [next?_append, Option.some.injEq, Option.map_eq_none_iff]
  cases hRead : Token.read? front.toList with
  | none => rfl
  | some p =>
    rw [Token.read?_append hRead back.toList] at h
    cases h

theorem exists_turn?_lt (rest : String) :
    ∃ next, turn? rest = some ((readStep rest.toList).1, next) ∧
      (readStep rest.toList).2 = (next.getD "").toList ∧
      ∀ s ∈ next, s.utf8ByteSize < rest.utf8ByteSize := by
  obtain ⟨next, hTurn, hRest⟩ := exists_turn?_eq rest.toList
  rw [String.ofList_toList] at hTurn
  refine ⟨next, hTurn, hRest, ?_⟩
  rintro s rfl
  exact lt_of_turn? hTurn

/-- A construct is told by its own characters and takes at least two octets, so the scan of every
document comes to its end and a finished beginning keeps its tokens. -/
theorem next?_local :
    (∀ body, next? ("<" ++ body) =
      some ((Token.read? body.toList).map fun p => (p.1, span body.toList p.2))) ∧
    (∀ body t n, next? ("<" ++ body) = some (some (t, n)) →
      2 ≤ n ∧ n ≤ ("<" ++ body).utf8ByteSize ∧
        (octets ("<" ++ body))[n - 1]? = some '>'.toUInt8 ∧
        ∃ whole rest, cut? ("<" ++ body) n = some (whole, rest) ∧
          ∀ more, next? (whole ++ more) = some (some (t, n))) ∧
    (∀ front back, next? ("<" ++ (front ++ back)) = some none →
      next? ("<" ++ front) = some none) ∧
    (∀ rest, ∃ next, turn? rest = some ((readStep rest.toList).1, next) ∧
      (readStep rest.toList).2 = (next.getD "").toList ∧
        ∀ s ∈ next, s.utf8ByteSize < rest.utf8ByteSize) ∧
    (∀ document, scan? document = some (tokens document.toList)) ∧
    ∀ front rest : String, Finished front.toList →
      mergeText (tokens (front ++ rest).toList) =
        mergeText (tokens front.toList ++ tokens rest.toList) := by
  refine ⟨next?_append, ?_, fun front back => next?_eq_some_none, exists_turn?_lt,
    scan?_eq_tokens, ?_⟩
  · intro body t n h
    obtain ⟨hLast, whole, rest, hCut, hMore⟩ := next?_eq_some_some h
    obtain ⟨hInput, hSpan⟩ := cut?_eq_some_iff.mp hCut
    refine ⟨two_le_of_next? h, ?_, hLast, whole, rest, hCut, hMore⟩
    rw [hInput, hSpan, String.utf8ByteSize_append]
    exact Nat.le_add_right ..
  · intro front rest hFinished
    rw [String.toList_append, hFinished.mergeText_append]

/-- A quoted `>`, a comment without an end, and a text that runs on behind a finished beginning. -/
theorem next?_local_quoted :
    next? ("<" ++ "a b='>'>é") = some (some (.opening "a", 9)) ∧
    (∃ whole rest, cut? ("<" ++ "a b='>'>é") 9 = some (whole, rest) ∧
      ∀ more, next? (whole ++ more) = some (some (.opening "a", 9))) ∧
    next? ("<" ++ ("!-- a" ++ " > b")) = some none ∧ next? ("<" ++ "!-- a") = some none ∧
    Finished "<a b='>'>é".toList ∧
    mergeText (tokens ("<a b='>'>é" ++ "ß</a>").toList) =
      mergeText (tokens "<a b='>'>é".toList ++ tokens "ß</a>".toList) := by
  obtain ⟨_, hSome, hNone, _, _, hMerge⟩ := next?_local
  have hTag : next? ("<" ++ "a b='>'>é") = some (some (.opening "a", 9)) := by decide +kernel
  have hComment : next? ("<" ++ ("!-- a" ++ " > b")) = some none := by decide +kernel
  have hFinished : Finished "<a b='>'>é".toList := by decide +kernel
  exact ⟨hTag, (hSome _ _ _ hTag).2.2.2, hComment, hNone _ _ hComment, hFinished,
    hMerge _ _ hFinished⟩

end Offsets

end PatentFilter.Markup

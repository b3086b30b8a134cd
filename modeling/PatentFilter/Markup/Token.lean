import PatentFilter.Text.Blank

/-!
# Tokens of loose markup

A document is read as text and tags without a grammar behind it. Tags are recognised by their
first characters only: a marked section gives its content as text; comments, declarations and
instructions are skipped; an empty-element tag is skipped too. A `<` that starts no finished
construct makes the rest of the document text.

Each reading step returns the rest of the input, which is never longer than what it was given.
-/

namespace PatentFilter.Markup

inductive Token where
  | opening (name : String)
  | closing (name : String)
  | text (content : String)
  | skipped
  deriving DecidableEq, Repr

/-- The input before and after the first occurrence of a mark. -/
def cutAt? (mark : List Char) : List Char → Option (List Char × List Char)
  | [] => none
  | c :: cs =>
    if mark.isPrefixOf (c :: cs) then some ([], (c :: cs).drop mark.length)
    else (cutAt? mark cs).map fun p => (c :: p.1, p.2)

theorem length_le_of_cutAt? {mark cs a b : List Char} (h : cutAt? mark cs = some (a, b)) :
    b.length ≤ cs.length := by
  induction cs generalizing a with
  | nil => simp [cutAt?] at h
  | cons c cs ih =>
    unfold cutAt? at h
    split at h
    · simp only [Option.some.injEq, Prod.mk.injEq] at h
      rw [← h.2, List.length_drop]
      exact Nat.sub_le ..
    · obtain ⟨⟨a', b'⟩, hp, he⟩ := Option.map_eq_some_iff.mp h
      simp only [Prod.mk.injEq] at he
      exact Nat.le_succ_of_le (ih (he.2 ▸ hp))

/-- Nothing is cut before a mark whose first character has not occurred. -/
theorem cutAt?_of_notMem {c : Char} {mark content : List Char} (h : c ∉ content)
    (rest : List Char) :
    cutAt? (c :: mark) (content ++ c :: (mark ++ rest)) = some (content, rest) := by
  induction content with
  | nil => simp [cutAt?]
  | cons d content ih =>
    rw [List.mem_cons, not_or] at h
    have hHere : ¬ (c :: mark).isPrefixOf (d :: (content ++ c :: (mark ++ rest))) = true := by
      simp [List.isPrefixOf, h.1]
    rw [List.cons_append, cutAt?, if_neg hHere, ih h.2]
    rfl

/-- The input before and after the `>` that ends a tag, the quote being the one still open: a `>`
between quotes ends nothing. -/
def cutTag? : Option Char → List Char → Option (List Char × List Char)
  | _, [] => none
  | some q, c :: cs =>
    (cutTag? (if c = q then none else some q) cs).map fun p => (c :: p.1, p.2)
  | none, c :: cs =>
    if c = '>' then some ([], cs)
    else (cutTag? (if c = '"' ∨ c = '\'' then some c else none) cs).map fun p => (c :: p.1, p.2)

theorem length_le_of_cutTag? {q : Option Char} {cs a b : List Char}
    (h : cutTag? q cs = some (a, b)) : b.length ≤ cs.length := by
  induction cs generalizing q a with
  | nil => cases q <;> simp [cutTag?] at h
  | cons c cs ih =>
    have step : ∀ q' : Option Char, ((cutTag? q' cs).map fun p => (c :: p.1, p.2)) = some (a, b) →
        b.length ≤ (c :: cs).length := by
      intro q' h
      obtain ⟨⟨a', b'⟩, hp, he⟩ := Option.map_eq_some_iff.mp h
      simp only [Prod.mk.injEq] at he
      exact Nat.le_succ_of_le (ih (he.2 ▸ hp))
    cases q with
    | some q => exact step _ h
    | none =>
      unfold cutTag? at h
      split at h
      · simp only [Option.some.injEq, Prod.mk.injEq] at h
        rw [h.2]
        exact Nat.le_succ _
      · exact step _ h

/-- The token of a tag, given what stands between `<` and `>`. The name of an end tag is its first
word; a start tag's name stops at a blank or a slash. -/
def Token.ofTag (inner : List Char) : Token :=
  match inner with
  | '/' :: rest =>
    let name := Text.firstWord rest
    if name.isEmpty then skipped else closing (String.ofList name)
  | _ =>
    let name := inner.takeWhile fun c => !Text.isBlank c && c != '/'
    if name.isEmpty || inner.getLast? == some '/' then skipped else opening (String.ofList name)

def sectionMark : List Char := ['!', '[', 'C', 'D', 'A', 'T', 'A', '[']

def commentMark : List Char := ['!', '-', '-']

/-- The construct that starts with a `<` in front of the input, and what follows it. -/
def Token.read? (body : List Char) : Option (Token × List Char) :=
  if sectionMark.isPrefixOf body then
    (cutAt? [']', ']', '>'] (body.drop sectionMark.length)).map fun p =>
      (text (String.ofList p.1), p.2)
  else if commentMark.isPrefixOf body then
    (cutAt? ['-', '-', '>'] (body.drop commentMark.length)).map fun p => (skipped, p.2)
  else if body.head? = some '!' ∨ body.head? = some '?' then
    (cutAt? ['>'] body).map fun p => (skipped, p.2)
  else
    (cutTag? none body).map fun p => (ofTag p.1, p.2)

theorem Token.length_le_of_read? {body rest : List Char} {t : Token}
    (h : read? body = some (t, rest)) : rest.length ≤ body.length := by
  have after : ∀ n, (body.drop n).length ≤ body.length := fun n => by simp
  unfold read? at h
  split at h
  · obtain ⟨⟨a, b⟩, hp, he⟩ := Option.map_eq_some_iff.mp h
    simp only [Prod.mk.injEq] at he
    exact Nat.le_trans (length_le_of_cutAt? (he.2 ▸ hp)) (after _)
  · split at h
    · obtain ⟨⟨a, b⟩, hp, he⟩ := Option.map_eq_some_iff.mp h
      simp only [Prod.mk.injEq] at he
      exact Nat.le_trans (length_le_of_cutAt? (he.2 ▸ hp)) (after _)
    · split at h
      · obtain ⟨⟨a, b⟩, hp, he⟩ := Option.map_eq_some_iff.mp h
        simp only [Prod.mk.injEq] at he
        exact length_le_of_cutAt? (he.2 ▸ hp)
      · obtain ⟨⟨a, b⟩, hp, he⟩ := Option.map_eq_some_iff.mp h
        simp only [Prod.mk.injEq] at he
        exact length_le_of_cutTag? (he.2 ▸ hp)

/-- The tokens up to and including the next construct, and the input after it. The text in front
of the construct is a token even when it is empty. -/
def readStep (cs : List Char) : List Token × List Char :=
  let front := Token.text (String.ofList (cs.takeWhile (· != '<')))
  match cs.dropWhile (· != '<') with
  | [] => ([front], [])
  | c :: body =>
    match Token.read? body with
    | none => ([front, .text (String.ofList (c :: body))], [])
    | some (t, rest) => ([front, t], rest)

theorem length_readStep_lt {cs : List Char} (h : cs ≠ []) :
    (readStep cs).2.length < cs.length := by
  have pos : 0 < cs.length := List.length_pos_iff.mpr h
  have sub := (cs.dropWhile_sublist (· != '<')).length_le
  unfold readStep
  split
  · exact pos
  · next c body hd =>
    rw [hd, List.length_cons] at sub
    split
    · exact pos
    · next t rest hr => exact Nat.lt_of_lt_of_le (Nat.lt_succ_of_le (Token.length_le_of_read? hr)) sub

def tokens (cs : List Char) : List Token :=
  if _h : cs = [] then []
  else (readStep cs).1 ++ tokens (readStep cs).2
termination_by cs.length
decreasing_by exact length_readStep_lt _h

/-- Folds a function over the tokens without building the list of them. -/
def foldTokens {σ : Type} (f : σ → Token → σ) (s : σ) (cs : List Char) : σ :=
  if _h : cs = [] then s
  else foldTokens f ((readStep cs).1.foldl f s) (readStep cs).2
termination_by cs.length
decreasing_by exact length_readStep_lt _h

theorem foldTokens_eq_foldl {σ : Type} (f : σ → Token → σ) (s : σ) (cs : List Char) :
    foldTokens f s cs = (tokens cs).foldl f s := by
  fun_induction tokens cs generalizing s with
  | case1 => simp [foldTokens]
  | case2 cs h ih => rw [foldTokens, dif_neg h, ih, List.foldl_append]

end PatentFilter.Markup

import PatentFilter.Proofs.Markup.Continuation
import PatentFilter.Proofs.Markup.Streaming

/-!
# Finished beginnings

A beginning of a document is finished when every construct that starts in it ends in it. A pass
then goes over the beginning first and over the rest from where it stands, whatever the rest is.
So of two rests that no pass tells apart either may follow, and the elements that the beginning
leaves open are all that an end tag behind it can see.
-/

namespace PatentFilter.Markup

/-- A pass does the same on the input as on the tokens. These may be the tokens of the input, or
others in which a text is divided elsewhere or nothing is skipped. -/
def ReadAs (cs : List Char) (ts : List Token) : Prop :=
  ∀ p : Progress, (tokens cs).foldl Progress.step p = ts.foldl Progress.step p

namespace ReadAs

variable {cs : List Char} {ts : List Token}

theorem refl (cs : List Char) : ReadAs cs (tokens cs) := fun _ => rfl

theorem construct {body rest : List Char} {t : Token} (hRead : Token.read? body = some (t, rest))
    (h : ReadAs rest ts) : ReadAs ('<' :: body) (t :: ts) := by
  intro p
  rw [Progress.foldl_tokens_of_read? hRead, h, List.foldl_cons]

theorem skip {body rest : List Char} (hRead : Token.read? body = some (.skipped, rest))
    (h : ReadAs rest ts) : ReadAs ('<' :: body) ts :=
  construct hRead h

theorem text {front : List Char} (hFront : '<' ∉ front) (h : ReadAs cs ts) :
    ReadAs (front ++ cs) (.text (String.ofList front) :: ts) := by
  intro p
  rw [Progress.foldl_tokens_append_text hFront, h, List.foldl_cons]
  rfl

theorem collect_eq {document : String} (h : ReadAs document.toList ts) (paths : List Path) :
    collect paths document = gather paths ts := by
  rw [collect_eq_gather, gather, gather, h]

theorem valuesAt_eq (h : ReadAs cs ts) (names : List String) :
    valuesAt names (forestOf (tokens cs)) = valuesAt names (forestOf ts) := by
  have hGather : gather [⟨names⟩] (tokens cs) = gather [⟨names⟩] ts := by
    rw [gather, gather, h]
  rw [gather_singleton, gather_singleton] at hGather
  exact (List.cons.inj hGather).1

end ReadAs

/-- A `<` is met only where a construct starts that comes to its end. -/
inductive Finished : List Char → Prop
  | text {front : List Char} (hFront : '<' ∉ front) : Finished front
  | construct {front body rest : List Char} {t : Token} (hFront : '<' ∉ front)
    (hRead : Token.read? body = some (t, rest)) (h : Finished rest) :
    Finished (front ++ '<' :: body)

def isFinished (cs : List Char) : Bool :=
  match _hDrop : cs.dropWhile (· != '<') with
  | [] => true
  | _ :: body =>
    match _hRead : Token.read? body with
    | none => false
    | some (_, rest) => isFinished rest
termination_by cs.length
decreasing_by
  have hSub := (cs.dropWhile_sublist (· != '<')).length_le
  rw [_hDrop, List.length_cons] at hSub
  exact Nat.lt_of_lt_of_le (Nat.lt_succ_of_le (Token.length_le_of_read? _hRead)) hSub

theorem isFinished_iff {cs : List Char} : isFinished cs = true ↔ Finished cs := by
  constructor
  · intro h
    fun_induction isFinished cs with
    | case1 cs hDrop =>
      apply Finished.text
      intro hMem
      simpa using List.dropWhile_eq_nil_iff.mp hDrop '<' hMem
    | case2 cs c body hDrop hRead => cases h
    | case3 cs c body hDrop t rest hRead ih =>
      rcases notMem_or_eq_append cs with hMem | ⟨front, body', rfl, hFront⟩
      · rw [dropWhile_of_notMem hMem] at hDrop
        cases hDrop
      · rw [dropWhile_append_lt hFront] at hDrop
        obtain ⟨rfl, rfl⟩ := List.cons.inj hDrop
        exact .construct hFront hRead (ih h)
  · intro h
    induction h with
    | text hFront =>
      rw [isFinished]
      split
      · rfl
      · next hDrop =>
        rw [dropWhile_of_notMem hFront] at hDrop
        cases hDrop
    | construct hFront hRead _ ih =>
      rw [isFinished]
      split
      · rfl
      · next hDrop =>
        rw [dropWhile_append_lt hFront] at hDrop
        obtain ⟨rfl, rfl⟩ := List.cons.inj hDrop
        split
        · next hNone =>
          rw [hRead] at hNone
          cases hNone
        · next hSome =>
          rw [hRead] at hSome
          cases hSome
          exact ih

instance (cs : List Char) : Decidable (Finished cs) :=
  decidable_of_iff _ isFinished_iff

example : Finished "<a>b > c</d>e".toList ∧ ¬ Finished "<a>b > c</d".toList := by
  decide +kernel

theorem Finished.readAs_append {front rest : List Char} {ts : List Token} (h : Finished front)
    (hRest : ReadAs rest ts) : ReadAs (front ++ rest) (tokens front ++ ts) := by
  induction h with
  | @text front hFront =>
    -- the last text token may run on into the rest, so only the passes are equal
    intro p
    have hAlone := Progress.foldl_tokens_append_text (p := p) hFront []
    rw [List.append_nil, tokens_nil, List.foldl_nil] at hAlone
    rw [ReadAs.text hFront hRest, List.foldl_append, hAlone]
    rfl
  | @construct front body rest' t hFront hRead _ ih =>
    intro p
    rw [List.append_assoc, List.cons_append,
      Progress.foldl_tokens_append_of_read? hFront (Token.read?_append hRead rest), ih,
      tokens_append_of_read? hFront hRead]
    rfl

theorem Finished.collect_append {front rest : String} {ts : List Token}
    (h : Finished front.toList) (hRest : ReadAs rest.toList ts) (paths : List Path) :
    collect paths (front ++ rest) = gather paths (tokens front.toList ++ ts) := by
  apply ReadAs.collect_eq
  rw [String.toList_append]
  exact h.readAs_append hRest

/-- The names of the elements that a document leaves open, from the outside in. -/
def openAfter (document : String) : List String :=
  (foldTokens Progress.step (.start []) document.toList).names

theorem frames_foldl_step (paths : List Path) (ts : List Token) :
    (ts.foldl Progress.step (.start paths)).frames =
      (ts.foldl Progress.step (.start [])).frames := by
  have hOnly := Progress.only_foldl paths.length (Progress.ordered_start paths) ts
  rw [Progress.only_start, List.getElem?_length, Option.toList_none] at hOnly
  rw [← hOnly]
  rfl

/-- A pass for whatever paths leaves the same elements open. -/
theorem names_foldTokens (paths : List Path) (document : String) :
    (foldTokens Progress.step (.start paths) document.toList).names = openAfter document := by
  rw [openAfter, foldTokens_eq_foldl, foldTokens_eq_foldl, Progress.names, Progress.names,
    frames_foldl_step]

/-- The elements left open are the open ones of the forest. -/
theorem names_foldl_tokens (document : String) :
    ((tokens document.toList).foldl Growth.step (.top [])).names = openAfter document := by
  obtain ⟨t, h⟩ := (mirrors_start [] "").foldl (tokens document.toList)
  rw [← h.names, ← names_foldTokens [⟨[""]⟩], foldTokens_eq_foldl]
  rfl

end PatentFilter.Markup

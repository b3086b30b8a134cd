import PatentFilter.Proofs.Markup.Finished

/-!
# Values persist

The values of a document that was cut off are followed into the whole document. Further tokens add
values at the end and text to the last one, and change nothing else. The cut itself may stand inside
a construct, whose start was then read as text; but that text begins with `<`, so a value that
starts with a stem without `<` keeps the stem.
-/

namespace PatentFilter.Markup

/-- Each value stands at the same place among the later values, with more text perhaps. -/
def Extends (old new : List String) : Prop :=
  ∀ (i : Nat) (v : String), old[i]? = some v → ∃ w, new[i]? = some w ∧ v.toList <+: w.toList

namespace Extends

theorem refl (values : List String) : Extends values values := by
  intro i v hv
  exact ⟨v, hv, List.prefix_rfl⟩

theorem trans {old mid new : List String} (h₁ : Extends old mid) (h₂ : Extends mid new) :
    Extends old new := by
  intro i v hv
  obtain ⟨w, hw, hPrefix⟩ := h₁ i v hv
  obtain ⟨u, hu, hPrefix'⟩ := h₂ i w hw
  exact ⟨u, hu, hPrefix.trans hPrefix'⟩

theorem append (old more : List String) : Extends old (old ++ more) := by
  intro i v hv
  have hi := (List.getElem?_eq_some_iff.mp hv).1
  exact ⟨v, by rw [List.getElem?_append_left hi, hv], List.prefix_rfl⟩

theorem append_last (front : List String) (last s : String) :
    Extends (front ++ [last]) (front ++ [last ++ s]) := by
  intro i v hv
  rcases Nat.lt_or_ge i front.length with hi | hi
  · rw [List.getElem?_append_left hi] at hv
    exact ⟨v, by rw [List.getElem?_append_left hi, hv], List.prefix_rfl⟩
  · rw [List.getElem?_append_right hi, List.getElem?_singleton] at hv
    split at hv
    · next hLast =>
      obtain rfl := Option.some.inj hv
      refine ⟨last ++ s, ?_, ?_⟩
      · rw [List.getElem?_append_right hi, List.getElem?_singleton, if_pos hLast]
      · rw [String.toList_append]
        exact List.prefix_append ..
    · cases hv

theorem exists_of_mem {old new : List String} (h : Extends old new) {v : String} (hv : v ∈ old) :
    ∃ w ∈ new, v.toList <+: w.toList := by
  obtain ⟨i, hi⟩ := List.mem_iff_getElem?.mp hv
  obtain ⟨w, hw, hPrefix⟩ := h i v hi
  exact ⟨w, List.mem_of_getElem? hw, hPrefix⟩

end Extends

namespace Growth

variable {once : Bool} {above : List String} {name : String}

theorem forest_closeElement (n : String) (g : Growth) : (g.closeElement n).forest = g.forest := by
  induction g with
  | top trees => rfl
  | inside earlier k inner ih =>
    rw [closeElement]
    split
    · rw [forest, forest, ih]
    · split <;> rfl

theorem extends_step (t : Token) (g : Growth) :
    Extends (readAt once above name g.forest) (readAt once above name (g.step t).forest) := by
  cases t with
  | opening n =>
    rw [step, readAt_openElement]
    exact Extends.append _ _
  | closing n =>
    rw [step, forest_closeElement]
    exact Extends.refl _
  | text s =>
    rw [step]
    cases hFeeds : g.feeds once above name with
    | true =>
      obtain ⟨front, last, hBefore, hAfter⟩ := readAt_addText_of_feeds s hFeeds
      rw [hBefore, hAfter]
      exact Extends.append_last front last s
    | false =>
      rw [readAt_addText_of_not_feeds s hFeeds]
      exact Extends.refl _
  | skipped => exact Extends.refl _

theorem extends_foldl (ts : List Token) (g : Growth) :
    Extends (readAt once above name g.forest) (readAt once above name (ts.foldl step g).forest) := by
  induction ts generalizing g with
  | nil => exact Extends.refl _
  | cons t ts ih => exact (extends_step t g).trans (ih (g.step t))

/-- Of two texts that may come next, a value that has the one has the other in its stead. -/
theorem mem_readAt_addText {v s : String} {g : Growth}
    (hv : v ∈ readAt once above name (g.addText s).forest) (s' : String) :
    v ∈ readAt once above name (g.addText s').forest ∨
      ∃ last, v = last ++ s ∧ last ++ s' ∈ readAt once above name (g.addText s').forest := by
  cases hFeeds : g.feeds once above name with
  | false =>
    rw [readAt_addText_of_not_feeds _ hFeeds] at hv ⊢
    exact .inl hv
  | true =>
    obtain ⟨front, last, hBefore, hAfter⟩ := readAt_addText_of_feeds s hFeeds
    obtain ⟨front', last', hBefore', hAfter'⟩ := readAt_addText_of_feeds s' hFeeds
    rw [hBefore] at hBefore'
    obtain ⟨rfl, hLast⟩ := List.append_inj' hBefore' rfl
    obtain rfl := (List.cons.inj hLast).1
    rw [hAfter, List.mem_append, List.mem_singleton] at hv
    rw [hAfter']
    rcases hv with hv | hv
    · exact .inl (List.mem_append_left _ hv)
    · exact .inr ⟨last, hv, by simp⟩

end Growth

theorem extends_valuesAt (names : List String) (ts us : List Token) :
    Extends (valuesAt names (forestOf ts)) (valuesAt names (forestOf (ts ++ us))) := by
  rcases List.eq_nil_or_concat names with rfl | ⟨above, name, rfl⟩
  · exact Extends.refl _
  · rw [List.concat_eq_append, valuesAt_concat, valuesAt_concat, forestOf, forestOf,
      List.foldl_append]
    exact Growth.extends_foldl us _

theorem mem_valuesAt_concat_text {names : List String} {ts : List Token} {v s : String}
    (hv : v ∈ valuesAt names (forestOf (ts ++ [.text s]))) (s' : String) :
    v ∈ valuesAt names (forestOf (ts ++ [.text s'])) ∨
      ∃ last, v = last ++ s ∧ last ++ s' ∈ valuesAt names (forestOf (ts ++ [.text s'])) := by
  rcases List.eq_nil_or_concat names with rfl | ⟨above, name, rfl⟩
  · simp [valuesAt_nil] at hv
  · rw [List.concat_eq_append, valuesAt_concat, forestOf, List.foldl_append] at hv ⊢
    exact Growth.mem_readAt_addText hv s'

theorem prefix_append_takeWhile {stem front cs : List Char} (hStem : '<' ∉ stem)
    (h : stem <+: front ++ cs) : stem <+: front ++ cs.takeWhile (· != '<') := by
  rcases notMem_or_eq_append cs with hMem | ⟨text, body, rfl, hText⟩
  · rwa [takeWhile_of_notMem hMem]
  · rw [takeWhile_append_lt hText]
    rw [← List.append_assoc] at h
    exact prefix_of_prefix_append_cons hStem h

/-- A value with a stem stays one when more input comes, wherever the document was cut. -/
theorem exists_valuesAt_append (names : List String) {document : List Char} {stem : List Char}
    {v : String} (hStem : '<' ∉ stem) (hPrefix : stem <+: v.toList)
    (hv : v ∈ valuesAt names (forestOf (tokens document))) (more : List Char) :
    ∃ w ∈ valuesAt names (forestOf (tokens (document ++ more))), stem <+: w.toList := by
  obtain ⟨ts, rest, hUnfinished, hTokens⟩ := exists_settled document
  have hCut : valuesAt names (forestOf (tokens document)) =
      valuesAt names (forestOf (ts ++ [.text (String.ofList rest)])) := by
    apply ReadAs.valuesAt_eq
    intro p
    have hAll := hTokens []
    rw [List.append_nil, List.append_nil] at hAll
    rw [hAll, List.foldl_append, List.foldl_append,
      Progress.foldl_tokens_of_unfinished hUnfinished]
    rfl
  by_cases hNil : rest ++ more = []
  · obtain ⟨_, rfl⟩ := List.append_eq_nil_iff.mp hNil
    rw [List.append_nil]
    exact ⟨v, hv, hPrefix⟩
  · obtain ⟨us, hNext⟩ := exists_tokens_eq_text hNil
    have hWhole : tokens (document ++ more) =
        (ts ++ [.text (String.ofList ((rest ++ more).takeWhile (· != '<')))]) ++ us := by
      rw [hTokens, hNext, List.append_assoc]
      rfl
    rw [hWhole]
    suffices hText : ∃ w ∈ valuesAt names
        (forestOf (ts ++ [.text (String.ofList ((rest ++ more).takeWhile (· != '<')))])),
        stem <+: w.toList by
      obtain ⟨w, hw, hStart⟩ := hText
      obtain ⟨u, hu, hLonger⟩ := (extends_valuesAt names _ us).exists_of_mem hw
      exact ⟨u, hu, hStart.trans hLonger⟩
    rw [hCut] at hv
    rcases mem_valuesAt_concat_text hv
      (String.ofList ((rest ++ more).takeWhile (· != '<'))) with hSame | ⟨last, rfl, hw⟩
    · exact ⟨v, hSame, hPrefix⟩
    · refine ⟨_, hw, ?_⟩
      rw [String.toList_append, String.toList_ofList] at hPrefix ⊢
      apply prefix_append_takeWhile hStem
      rw [← List.append_assoc]
      exact hPrefix.trans (List.prefix_append ..)

end PatentFilter.Markup

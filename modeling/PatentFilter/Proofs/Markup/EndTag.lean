import PatentFilter.Proofs.Markup.Persistence
import PatentFilter.Proofs.Markup.Rendering

/-!
# End tags that may be left out

An end tag closes what stands open inside its element too. So the end tag of an inner element may
be left out before that of an outer one, an end tag without an open element may always be left
out, and at the end of the document every end tag may be.
-/

namespace PatentFilter.Markup

structure EndName where
  text : String
  valid : IsEndName text

namespace EndName

def tag (n : EndName) : String := "</" ++ n.text ++ ">"

theorem readAs_tag_append (n : EndName) {rest : String} {ts : List Token}
    (h : ReadAs rest.toList ts) : ReadAs (n.tag ++ rest).toList (.closing n.text :: ts) := by
  have hChars : (n.tag ++ rest).toList = '<' :: '/' :: (n.text.toList ++ '>' :: rest.toList) := by
    simp [tag]
  rw [hChars]
  exact ReadAs.construct (n.valid.read?_closing rest.toList) h

end EndName

/-- The nearest open element of the first name lies inside the nearest one of the second name, the
open elements being given from the outside in. -/
def LiesInside (inner outer : String) (names : List String) : Prop :=
  ∃ around between within, names = around ++ outer :: (between ++ inner :: within) ∧
    outer ∉ between ++ inner :: within ∧ inner ∉ within

theorem Growth.closeElement_closeElement {inner outer : String} {g : Growth}
    (h : LiesInside inner outer g.names) :
    (g.closeElement inner).closeElement outer = g.closeElement outer := by
  obtain ⟨around, between, within, hNames, hOuter, hInner⟩ := h
  have hBetween : outer ∉ between := fun hMem => hOuter (List.mem_append_left _ hMem)
  have hFirst : g.names = (around ++ outer :: between) ++ inner :: within := by
    rw [hNames, List.append_assoc, List.cons_append]
  have hLeft : (g.cut (around ++ outer :: between).length).names = around ++ outer :: between := by
    rw [names_cut, hFirst, List.take_left]
  have hLength : around.length ≤ (around ++ outer :: between).length := by
    rw [List.length_append]
    exact Nat.le_add_right ..
  calc
    (g.closeElement inner).closeElement outer
      = (g.cut (around ++ outer :: between).length).closeElement outer := by
        rw [closeElement_eq_cut hFirst hInner]
    _ = (g.cut (around ++ outer :: between).length).cut around.length :=
        closeElement_eq_cut hLeft hBetween
    _ = g.cut around.length := cut_cut hLength g
    _ = g.closeElement outer := (closeElement_eq_cut hNames hOuter).symm

theorem gather_append_congr {front ts us : List Token}
    (h : (ts.foldl Growth.step (front.foldl Growth.step (.top []))).forest =
      (us.foldl Growth.step (front.foldl Growth.step (.top []))).forest) (paths : List Path) :
    gather paths (front ++ ts) = gather paths (front ++ us) := by
  simp only [gather_eq_map_valuesAt, forestOf, List.foldl_append, h]

/-- Behind a finished beginning, an end tag makes no difference before that of an element further
out, nor where no element of its name is open, nor at the end. -/
theorem collect_endTags {p : String} (hp : Finished p.toList) (s : String) (paths : List Path)
    (n m : EndName) :
    (LiesInside n.text m.text (openAfter p) →
      collect paths (p ++ n.tag ++ m.tag ++ s) = collect paths (p ++ m.tag ++ s)) ∧
    (n.text ∉ openAfter p → collect paths (p ++ n.tag ++ s) = collect paths (p ++ s)) ∧
    collect paths (p ++ n.tag) = collect paths p := by
  have hRest := ReadAs.refl s.toList
  refine ⟨fun hInside => ?_, fun hNone => ?_, ?_⟩
  · rw [String.append_assoc, String.append_assoc, String.append_assoc,
      hp.collect_append (n.readAs_tag_append (m.readAs_tag_append hRest)),
      hp.collect_append (m.readAs_tag_append hRest)]
    apply gather_append_congr
    rw [← names_foldl_tokens] at hInside
    simp only [List.foldl_cons, Growth.step, Growth.closeElement_closeElement hInside]
  · rw [String.append_assoc, hp.collect_append (n.readAs_tag_append hRest),
      hp.collect_append hRest]
    apply gather_append_congr
    rw [← names_foldl_tokens] at hNone
    simp only [List.foldl_cons, Growth.step, Growth.closeElement_of_notMem hNone]
  · have hNothing : ReadAs "".toList [] := fun _ => by rw [String.toList_empty, tokens_nil]
    have hClosed := hp.collect_append (n.readAs_tag_append hNothing) paths
    have hAlone := hp.collect_append hNothing paths
    rw [String.append_empty] at hClosed hAlone
    rw [hClosed, hAlone]
    apply gather_append_congr
    exact Growth.forest_closeElement n.text _

/-- The nearest `c` lies inside the nearest `b`, both names being open further out too; a `q` is
open nowhere. -/
theorem collect_endTags_repeated :
    Finished "<a><b><c>u</q><a><b>v<c>w".toList ∧
    LiesInside "c" "b" (openAfter "<a><b><c>u</q><a><b>v<c>w") ∧
    "q" ∉ openAfter "<a><b><c>u</q><a><b>v<c>w" ∧
    collect [⟨["a", "b", "c", "a", "b"]⟩, ⟨["a", "b", "c"]⟩]
        "<a><b><c>u</q><a><b>v<c>w</c></b>x</c>y" =
      collect [⟨["a", "b", "c", "a", "b"]⟩, ⟨["a", "b", "c"]⟩]
        "<a><b><c>u</q><a><b>v<c>w</b>x</c>y" ∧
    collect [⟨["a", "b", "c", "a", "b"]⟩, ⟨["a", "b", "c"]⟩]
        "<a><b><c>u</q><a><b>v<c>w</q>x</c>y" =
      collect [⟨["a", "b", "c", "a", "b"]⟩, ⟨["a", "b", "c"]⟩]
        "<a><b><c>u</q><a><b>v<c>wx</c>y" := by
  have hFinished : Finished "<a><b><c>u</q><a><b>v<c>w".toList := by decide +kernel
  have hInside : LiesInside "c" "b" (openAfter "<a><b><c>u</q><a><b>v<c>w") :=
    ⟨["a", "b", "c", "a"], [], [], by decide +kernel⟩
  have hNone : "q" ∉ openAfter "<a><b><c>u</q><a><b>v<c>w" := by decide +kernel
  have hInner : IsTagName "c" := by decide
  have hOuter : IsTagName "b" := by decide
  have hStray : IsTagName "q" := by decide
  refine ⟨hFinished, hInside, hNone, ?_, ?_⟩
  · exact (collect_endTags hFinished "x</c>y" _ ⟨"c", hInner.isStartName.isEndName⟩
      ⟨"b", hOuter.isStartName.isEndName⟩).1 hInside
  · exact (collect_endTags hFinished "x</c>y" _ ⟨"q", hStray.isStartName.isEndName⟩
      ⟨"b", hOuter.isStartName.isEndName⟩).2.1 hNone

end PatentFilter.Markup

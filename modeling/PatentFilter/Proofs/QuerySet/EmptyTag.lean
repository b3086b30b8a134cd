import PatentFilter.Proofs.Markup.EmptyTag
import PatentFilter.Proofs.Query.SoundCodes
import PatentFilter.Proofs.QuerySet.Table
import PatentFilter.Proofs.QuerySet.Union

/-!
# Matching with empty elements

An element written as one empty tag is as good as not there, for every set. Written as two tags it
can only cost a match, and that only by hiding a later sibling of its name from the tests: its own
value is empty, and nothing that is looked for is.
-/

namespace PatentFilter

theorem Markup.Hides.getD {olds news : List (List String)}
    (h : List.Forall₂ Markup.Hides olds news) (i : Nat) :
    Markup.Hides (olds.getD i []) (news.getD i []) := by
  induction h generalizing i with
  | nil => exact .same []
  | cons hHead _ ih =>
    cases i with
    | zero => exact hHead
    | succ i => exact ih i

theorem Code.toList_text_ne_nil {c : Code} (h : c.fault? = none) : c.text.toList ≠ [] := by
  obtain ⟨ch, hMem, _⟩ := exists_visible_text (fault?_eq_none_iff_isSoundPart.mp h)
  exact List.ne_nil_of_mem hMem

namespace Layout

open Markup

variable {p : String} (hp : Finished p.toList) (n : TagName) (s : String) (l : Layout)
  (place : Place)

include hp

theorem mem_valuesAt_emptyPair {v : String} (hv : v ∈ l.valuesAt place (p ++ n.emptyPair ++ s)) :
    v = "" ∨ v ∈ l.valuesAt place (p ++ s) :=
  (Hides.getD (forall₂_hides_collect hp n s _) 0).eq_empty_or_mem hv

theorem valuesAt_emptyPair (h : l.anchor.extend [place.element, place.textElement] ≠
      ⟨openAfter p ++ [n.text]⟩) :
    l.valuesAt place (p ++ n.emptyPair ++ s) = l.valuesAt place (p ++ s) := by
  rw [valuesAt, valuesAt, collect_emptyPair hp n s]
  intro path hPath hNames
  rw [List.mem_singleton.mp hPath] at hNames
  exact absurd (congrArg Markup.Path.mk hNames) h

end Layout

namespace QuerySet

open Markup

variable {wanted : List Code} {set : QuerySet} {p : String}

theorem Reachable.openAfter_ne_nil (h : set.Reachable) {names : List String} {name : String}
    (hPath : ⟨names ++ [name]⟩ ∈ set.paths) : names ≠ [] := by
  rw [h.firstUses.mem_iff, reads, List.mem_flatMap] at hPath
  obtain ⟨q, _, hq⟩ := hPath
  obtain ⟨t, _, ht⟩ := List.mem_map.mp hq
  have hLength := congrArg (fun path => path.names.length) ht
  simp only [Query.valuePath, Markup.Path.extend, List.length_append, List.length_cons,
    List.length_nil] at hLength
  rintro rfl
  simp at hLength

theorem evaluate_congr {document document' : String}
    (h : collect set.paths document = collect set.paths document') :
    set.evaluate document = set.evaluate document' := by
  rw [evaluate, evaluate, h]

section

variable (hp : Finished p.toList) (n : TagName) (s : String)

include hp

theorem foundIn_of_emptyPair {c : Code} (hSound : c.fault? = none)
    (h : c.FoundIn (p ++ n.emptyPair ++ s)) : c.FoundIn (p ++ s) := by
  obtain ⟨place, hPlace, v, hv, hPrefix⟩ := h
  rcases Layout.mem_valuesAt_emptyPair hp n s _ place hv with rfl | hOld
  · exact absurd (List.prefix_nil.mp hPrefix) (Code.toList_text_ne_nil hSound)
  · exact ⟨place, hPlace, v, hOld, hPrefix⟩

theorem foundIn_emptyPair_of_kept {c : Code}
    (hKept : ∀ v ∈ (collect [⟨openAfter p ++ [n.text]⟩] (p ++ s)).getD 0 [],
      v ∈ (collect [⟨openAfter p ++ [n.text]⟩] (p ++ n.emptyPair ++ s)).getD 0 [])
    (h : c.FoundIn (p ++ s)) : c.FoundIn (p ++ n.emptyPair ++ s) := by
  obtain ⟨place, hPlace, v, hv, hPrefix⟩ := h
  refine ⟨place, hPlace, v, ?_, hPrefix⟩
  by_cases hPath : c.scheme.layout.anchor.extend [place.element, place.textElement] =
      ⟨openAfter p ++ [n.text]⟩
  · rw [Layout.valuesAt, hPath] at hv ⊢
    exact hKept v hv
  · rwa [Layout.valuesAt_emptyPair hp n s _ place hPath]

theorem evaluate_emptyPair (h : set.Reachable)
    (hChild : ⟨openAfter p ++ [n.text]⟩ ∈ set.paths → hasChild p n.text = true) :
    set.evaluate (p ++ n.emptyPair ++ s) = set.evaluate (p ++ s) := by
  apply evaluate_congr
  apply collect_emptyPair hp n s
  rintro ⟨names⟩ hPath rfl
  exact ⟨h.openAfter_ne_nil hPath, hChild hPath⟩

end

/-- Behind a finished beginning an empty tag is passed over. With two tags in its stead nothing
matches that did not; the outcome is the same if no query reads the place, or if a child of the name
has come there before, and it is a match as before if no value is hidden there. -/
theorem evaluate_emptyTag (hs : (compile wanted).1 = .ok set) (hp : Finished p.toList)
    (n : TagName) (s : String) :
    let path : Markup.Path := ⟨openAfter p ++ [n.text]⟩
    let tag := p ++ n.emptyTag ++ s
    let pair := p ++ n.emptyPair ++ s
    set.evaluate tag = set.evaluate (p ++ s) ∧
    ((set.evaluate pair).isSome = true → (set.evaluate tag).isSome = true) ∧
    ((path ∈ set.paths → hasChild p n.text = true) → set.evaluate pair = set.evaluate tag) ∧
    ((∀ v ∈ (collect [path] tag).getD 0 [], v ∈ (collect [path] pair).getD 0 []) →
      (set.evaluate pair).isSome = (set.evaluate tag).isSome) := by
  intro path tag pair
  have hTag : set.evaluate tag = set.evaluate (p ++ s) :=
    evaluate_congr (collect_emptyTag hp n s set.paths)
  have hLose : (set.evaluate pair).isSome = true → (set.evaluate tag).isSome = true := by
    rw [hTag, isSome_evaluate_iff hs, isSome_evaluate_iff hs]
    rintro ⟨c, hc, hFound⟩
    exact ⟨c, hc, foundIn_of_emptyPair hp n s ((compile_eq_ok_iff.mp hs).1 c hc) hFound⟩
  refine ⟨hTag, hLose, fun hChild => ?_, fun hKept => ?_⟩
  · rw [hTag]
    exact evaluate_emptyPair hp n s (.compile hs) hChild
  · rw [Bool.eq_iff_iff]
    refine ⟨hLose, ?_⟩
    rw [hTag, isSome_evaluate_iff hs, isSome_evaluate_iff hs]
    rintro ⟨c, hc, hFound⟩
    rw [collect_emptyTag hp n s] at hKept
    exact ⟨c, hc, foundIn_emptyPair_of_kept hp n s hKept hFound⟩

/-- Behind a sibling of the name with the value; in front of the other field with the value. -/
theorem evaluate_emptyTag_besideHit :
    let set := ofQueries [.ofSound (.uspc "705")]
    let n : TagName := ⟨"PDAT", by decide⟩
    let field := "<PATDOC><SDOBI><B500><B520><B521>"
    let sibling := field ++ "<PDAT>7051</PDAT>"
    let rest := "t</B521><B522><PDAT>7052"
    (compile [.uspc "705"]).1 = .ok set ∧
    (Finished sibling.toList ∧ hasChild sibling "PDAT" = true ∧
      set.evaluate (sibling ++ n.emptyPair ++ rest) =
        set.evaluate (sibling ++ n.emptyTag ++ rest)) ∧
    (Finished field.toList ∧ hasChild field "PDAT" = false ∧
      (set.evaluate (field ++ n.emptyPair ++ rest)).isSome =
        (set.evaluate (field ++ n.emptyTag ++ rest)).isSome) := by
  intro set n field sibling rest
  have hs : (compile [.uspc "705"]).1 = .ok set := compile_eq_ok_iff.mpr ⟨by decide, rfl⟩
  have hSibling : Finished sibling.toList ∧ hasChild sibling "PDAT" = true := by decide +kernel
  have hField : Finished field.toList ∧ hasChild field "PDAT" = false := by decide +kernel
  have hKept : ∀ v ∈ (collect [⟨openAfter field ++ ["PDAT"]⟩]
        (field ++ n.emptyTag ++ rest)).getD 0 [],
      v ∈ (collect [⟨openAfter field ++ ["PDAT"]⟩] (field ++ n.emptyPair ++ rest)).getD 0 [] := by
    decide +kernel
  refine ⟨hs, ⟨hSibling.1, hSibling.2, ?_⟩, hField.1, hField.2, ?_⟩
  · exact (evaluate_emptyTag hs hSibling.1 n rest).2.2.1 fun _ => hSibling.2
  · exact (evaluate_emptyTag hs hField.1 n rest).2.2.2 hKept

/-- The same element, written in two ways, in front of a sibling. -/
theorem evaluate_emptyTag_ne :
    let set := ofQueries [.ofSound (.uspc "705")]
    let p := "<PATDOC><SDOBI><B500><B520><B521>"
    let s := "<PDAT>705</PDAT></B521>"
    (compile [.uspc "705"]).1 = .ok set ∧ Finished p.toList ∧ IsTagName "PDAT" ∧
      (set.evaluate (p ++ "<PDAT/>" ++ s)).isSome ≠
        (set.evaluate (p ++ "<PDAT></PDAT>" ++ s)).isSome := by
  have hs : (compile [.uspc "705"]).1 = .ok (ofQueries [.ofSound (.uspc "705")]) :=
    compile_eq_ok_iff.mpr ⟨by decide, rfl⟩
  refine ⟨hs, ?_⟩
  decide +kernel

end QuerySet

end PatentFilter

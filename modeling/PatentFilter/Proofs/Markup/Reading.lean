import Mathlib.Data.List.Basic
import PatentFilter.Proofs.Markup.Forest

/-!
# Reading a growing forest

The values at a path are followed through the growth of a forest: which tokens add a value, which
ones add to the last value, and which ones leave all values alone. The rule for roots (every one
of a name counts) and the rule for children (only the first of a name counts) are treated as one,
with a flag for the second.
-/

namespace PatentFilter.Markup

/-- The siblings of a name that count: the first only, or all. -/
def chosen (once : Bool) (name : String) (siblings : List Node) : List Node :=
  if once then (siblings.find? (·.isNamed name)).toList else siblings.filter (·.isNamed name)

/-- Whether no further sibling of the name counts. -/
def barred (once : Bool) (name : String) (siblings : List Node) : Bool :=
  once && siblings.any (·.isNamed name)

theorem chosen_append_text (once : Bool) (name s : String) (siblings : List Node) :
    chosen once name (siblings ++ [.text s]) = chosen once name siblings := by
  cases once <;> simp [chosen, List.find?_append]

theorem chosen_append_element (once : Bool) (name n : String) (siblings children : List Node) :
    chosen once name (siblings ++ [.element n children]) =
      chosen once name siblings ++
        if n == name && !barred once name siblings then [.element n children] else [] := by
  cases once with
  | false => cases h : n == name <;> simp [chosen, barred, h]
  | true =>
    have hAny : siblings.any (·.isNamed name) = (siblings.find? (·.isNamed name)).isSome :=
      List.isSome_find?.symm
    simp only [chosen, barred, hAny, List.find?_append, List.find?_singleton, if_true,
      Node.isNamed_element, Bool.true_and]
    cases siblings.find? (·.isNamed name) with
    | none => by_cases h : n = name <;> simp [h]
    | some x => simp

theorem barred_append_text (once : Bool) (name s : String) (siblings : List Node) :
    barred once name (siblings ++ [.text s]) = barred once name siblings := by
  simp [barred]

theorem barred_append_element (once : Bool) (name n : String) (siblings children : List Node) :
    barred once name (siblings ++ [.element n children]) =
      (barred once name siblings || (once && n == name)) := by
  cases once <;> simp [barred]

/-- The contents of the chosen children of all elements with the given names. -/
def readAt (once : Bool) : List String → String → List Node → List String
  | [], name, forest => (chosen once name forest).map Node.content
  | m :: above, name, forest =>
    (forest.filter (·.isNamed m)).flatMap fun x => readAt once above name x.children

theorem readAt_cons_append (once : Bool) (m : String) (above : List String) (name : String)
    (xs ys : List Node) :
    readAt once (m :: above) name (xs ++ ys) =
      readAt once (m :: above) name xs ++ readAt once (m :: above) name ys := by
  simp [readAt]

theorem readAt_append_text (once : Bool) (above : List String) (name s : String)
    (forest : List Node) :
    readAt once above name (forest ++ [.text s]) = readAt once above name forest := by
  cases above with
  | nil => rw [readAt, readAt, chosen_append_text]
  | cons m above => simp [readAt]

theorem readAt_nil_append_element (once : Bool) (name n : String) (forest children : List Node) :
    readAt once [] name (forest ++ [.element n children]) =
      readAt once [] name forest ++
        if n == name && !barred once name forest then [contentOf children] else [] := by
  rw [readAt, readAt, chosen_append_element, List.map_append]
  cases n == name && !barred once name forest <;> rfl

theorem readAt_cons_append_element (once : Bool) (m : String) (above : List String)
    (name n : String) (forest children : List Node) :
    readAt once (m :: above) name (forest ++ [.element n children]) =
      readAt once (m :: above) name forest ++
        if n == m then readAt once above name children else [] := by
  cases h : n == m <;> simp [readAt, h]

theorem filterMap_elementsAt (m : String) (above : List String) (name : String)
    (forest : List Node) :
    ((elementsAt (m :: above) forest).filterMap fun x =>
      (x.children.find? (·.isNamed name)).map Node.content) =
      readAt true (m :: above) name forest := by
  induction above generalizing m forest with
  | nil =>
    rw [elementsAt, readAt, List.filterMap_eq_flatMap_toList]
    exact List.flatMap_congr fun x _ => Option.toList_map ..
  | cons k above ih =>
    rw [elementsAt, readAt, List.filterMap_flatMap]
    · exact List.flatMap_congr fun x _ => ih k x.children
    · simp

theorem valuesAt_nil (forest : List Node) : valuesAt [] forest = [] := rfl

theorem valuesAt_concat (above : List String) (name : String) (forest : List Node) :
    valuesAt (above ++ [name]) forest = readAt (!above.isEmpty) above name forest := by
  rw [valuesAt, List.reverse_append, List.reverse_singleton, List.singleton_append]
  cases above with
  | nil => rfl
  | cons m above =>
    rw [← List.reverse_reverse (m :: above)]
    cases h : (m :: above).reverse with
    | nil => simp at h
    | cons k rest =>
      rw [List.isEmpty_reverse, List.reverse_reverse]
      simp only [List.isEmpty_cons, Bool.not_false]
      rw [← h, List.reverse_reverse, filterMap_elementsAt]

end PatentFilter.Markup

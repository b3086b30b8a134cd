import PatentFilter.Proofs.Markup.Streaming

/-!
# A pass keeps its state consistent

The names of the open elements, their numbers, the captures and what the targets remember are kept
apart and changed one by one, by start tags that open several captures at once and by end tags that
close many elements. Before each iteration they fit together all the same. In particular the
captures to be finished are the last ones whenever some are, so cutting them off finishes exactly
those of the elements that are closed.
-/

namespace PatentFilter.Markup

/-- The last position at which a name stands, counted from the front. -/
def lastOf? (name : String) : List String → Option Nat
  | [] => none
  | n :: names =>
    match lastOf? name names with
    | some i => some (i + 1)
    | none => if n = name then some 0 else none

theorem lastOf?_concat (name n : String) (names : List String) :
    lastOf? name (names ++ [n]) = if n = name then some names.length else lastOf? name names := by
  induction names with
  | nil => rfl
  | cons m names ih =>
    rw [List.cons_append, lastOf?, ih]
    by_cases hName : n = name
    · simp [hName]
    · simp [hName, lastOf?]

theorem lastOf?_eq_none_iff {name : String} {names : List String} :
    lastOf? name names = none ↔ name ∉ names := by
  induction names with
  | nil => simp [lastOf?]
  | cons n names ih =>
    rw [lastOf?, List.mem_cons, not_or, ← ih]
    cases lastOf? name names with
    | some i => simp
    | none => simp [eq_comm]

/-- What an end tag looks for from the inside is the last of the names. -/
theorem lastOf?_namesOf (name : String) (frames : List Frame) :
    lastOf? name (namesOf frames) =
      match frames.dropWhile (·.name != name) with
      | [] => none
      | _ :: outer => some outer.length := by
  induction frames with
  | nil => rfl
  | cons f frames ih =>
    rw [namesOf_cons, lastOf?_concat, length_namesOf]
    by_cases hName : f.name = name
    · simp [hName]
    · simp [hName, ih]

/-- The open elements as two stacks, the outermost first: one of the names and one of the numbers,
beside the last number given out. -/
structure Stacks where
  names : List String
  numbers : List Nat
  opened : Nat

namespace Stacks

def openElement (name : String) (s : Stacks) : Stacks :=
  ⟨s.names ++ [name], s.numbers ++ [s.opened + 1], s.opened + 1⟩

def cut (depth : Nat) (s : Stacks) : Stacks :=
  { s with names := s.names.take depth, numbers := s.numbers.take depth }

def closeElement (name : String) (s : Stacks) : Stacks :=
  match lastOf? name s.names with
  | none => s
  | some depth => s.cut depth

def step (s : Stacks) : Token → Stacks
  | .opening name => s.openElement name
  | .closing name => s.closeElement name
  | .text _ => s
  | .skipped => s

end Stacks

namespace Progress

/-- The numbers of the open elements, the outermost first. -/
def numbers (p : Progress) : List Nat := (p.frames.map Frame.number).reverse

def asStacks (p : Progress) : Stacks := ⟨p.names, p.numbers, p.opened⟩

/-- How a state and the two stacks fit together in a pass over the given paths. -/
structure Consistent (paths : List Path) (p : Progress) (s : Stacks) : Prop where
  agree : p.asStacks = s
  ordered : p.Ordered
  listed : p.targets.map Target.path = paths
  parallel : s.names.length = s.numbers.length
  increasing : s.numbers.Pairwise (· < ·)
  issued : ∀ n ∈ s.numbers, n ≤ s.opened
  depth : ∀ c ∈ p.captures, 1 ≤ c.depth ∧ c.depth ≤ s.names.length
  along : ∀ c ∈ p.captures, ∃ path, paths[c.target]? = some path ∧
    path.names = s.names.take c.depth
  single : (p.captures.map Capture.target).Nodup
  parent : ∀ c ∈ p.captures, 2 ≤ c.depth → ∃ t n, p.targets[c.target]? = some t ∧
    s.numbers[c.depth - 2]? = some n ∧ t.takenUnder = some n

variable {paths : List Path} {p : Progress} {s : Stacks}

theorem consistent_start (paths : List Path) : Consistent paths (start paths) ⟨[], [], 0⟩ where
  agree := rfl
  ordered := ordered_start paths
  listed := by simp [start, Function.comp_def]
  parallel := rfl
  increasing := .nil
  issued := by simp
  depth := by simp [start]
  along := by simp [start]
  single := .nil
  parent := by simp [start]

theorem Consistent.names_eq (h : Consistent paths p s) : p.names = s.names :=
  congrArg Stacks.names h.agree

theorem Consistent.numbers_eq (h : Consistent paths p s) : p.numbers = s.numbers :=
  congrArg Stacks.numbers h.agree

theorem Consistent.length_frames (h : Consistent paths p s) : p.frames.length = s.names.length := by
  rw [← h.names_eq, names, length_namesOf]

theorem Consistent.addText (h : Consistent paths p s) (text : String) :
    Consistent paths (p.addText text) s where
  agree := h.agree
  ordered := h.ordered.addText text
  listed := h.listed
  parallel := h.parallel
  increasing := h.increasing
  issued := h.issued
  depth := List.forall_mem_map.mpr h.depth
  along := List.forall_mem_map.mpr h.along
  single := by
    have hSame : (p.addText text).captures.map Capture.target = p.captures.map Capture.target := by
      simp [Progress.addText, Function.comp_def]
    rw [hSame]
    exact h.single
  parent := List.forall_mem_map.mpr h.parent

/-- The captures that an element just opened gets. -/
def fresh (name : String) (p : Progress) : List Capture :=
  p.targets.zipIdx.filterMap fun t =>
    if t.1.takes (⟨name, p.opened + 1⟩ :: p.frames) (p.frames.head?.map Frame.number) then
      some ⟨t.2, p.frames.length + 1, ""⟩
    else none

theorem captures_openElement (name : String) (p : Progress) :
    (p.openElement name).captures = p.captures ++ p.fresh name := rfl

theorem targets_openElement (name : String) (p : Progress) :
    (p.openElement name).targets = p.targets.map fun t =>
      if t.takes (⟨name, p.opened + 1⟩ :: p.frames) (p.frames.head?.map Frame.number) then
        { t with takenUnder := p.frames.head?.map Frame.number }
      else t := rfl

theorem asStacks_openElement (name : String) (p : Progress) :
    (p.openElement name).asStacks = p.asStacks.openElement name := by
  simp [asStacks, Stacks.openElement, numbers, openElement, names, namesOf]

theorem mem_fresh {name : String} {c : Capture} (h : c ∈ p.fresh name) :
    c.depth = p.frames.length + 1 ∧ ∃ t, p.targets[c.target]? = some t ∧
      t.takes (⟨name, p.opened + 1⟩ :: p.frames) (p.frames.head?.map Frame.number) = true := by
  obtain ⟨⟨t, i⟩, hMem, hSome⟩ := List.mem_filterMap.mp h
  split at hSome
  · next hTakes =>
    obtain rfl := Option.some.inj hSome
    exact ⟨rfl, t, List.mem_zipIdx_iff_getElem?.mp hMem, hTakes⟩
  · cases hSome

theorem nodup_target_fresh (name : String) (p : Progress) :
    ((p.fresh name).map Capture.target).Nodup := by
  have hPositions : p.targets.zipIdx.Pairwise fun t u => t.2 ≠ u.2 := by
    have hRange : (p.targets.zipIdx.map Prod.snd).Nodup := by
      rw [List.zipIdx_map_snd]
      exact List.nodup_range'
    exact List.pairwise_map.mp hRange
  rw [List.Nodup, List.pairwise_map, fresh, List.pairwise_filterMap]
  refine hPositions.imp fun hNe c hc d hd => ?_
  split at hc
  · split at hd
    · obtain rfl := Option.some.inj hc
      obtain rfl := Option.some.inj hd
      exact hNe
    · cases hd
  · cases hc

/-- The path of a target, whatever happened to the target. -/
theorem Consistent.path_eq (h : Consistent paths p s) {i : Nat} {t : Target}
    (ht : p.targets[i]? = some t) : paths[i]? = some t.path := by
  rw [← h.listed, List.getElem?_map, ht]
  rfl

/-- A target takes an element at the path that the open elements and the new name make up. -/
theorem Consistent.names_of_takes (h : Consistent paths p s) {name : String} {t : Target}
    {parent : Option Nat}
    (hTakes : t.takes (⟨name, p.opened + 1⟩ :: p.frames) parent = true) :
    t.path.names = s.names ++ [name] := by
  rw [Target.takes, Bool.and_eq_true, standsAt_eq_leadsTo, Path.leadsTo_iff, namesOf_cons] at hTakes
  rw [← h.names_eq, names]
  exact hTakes.1

/-- A target that takes an element has no open capture yet. -/
theorem Consistent.not_takes (h : Consistent paths p s) {name : String} {c : Capture}
    (hc : c ∈ p.captures) {t : Target} (ht : p.targets[c.target]? = some t) :
    t.takes (⟨name, p.opened + 1⟩ :: p.frames) (p.frames.head?.map Frame.number) = false := by
  -- the path of the target is as long as the capture is deep, hence too short
  rw [Bool.eq_false_iff]
  intro hTakes
  obtain ⟨path, hPath, hNames⟩ := h.along c hc
  rw [h.path_eq ht] at hPath
  obtain rfl := Option.some.inj hPath
  have hLength := congrArg List.length ((h.names_of_takes hTakes).symm.trans hNames)
  rw [List.length_append, List.length_singleton, List.length_take] at hLength
  omega

theorem Consistent.openElement (h : Consistent paths p s) (name : String) :
    Consistent paths (p.openElement name) (s.openElement name) where
  agree := by rw [asStacks_openElement, h.agree]
  ordered := h.ordered.openElement name
  listed := by
    rw [← h.listed, Progress.openElement, List.map_map]
    apply List.map_congr_left
    intro t _
    simp only [Function.comp_apply]
    split <;> rfl
  parallel := by
    rw [Stacks.openElement, List.length_append, List.length_append, h.parallel]
    rfl
  increasing := by
    rw [Stacks.openElement, List.pairwise_append]
    refine ⟨h.increasing, List.pairwise_singleton .., fun n hn m hm => ?_⟩
    rw [List.mem_singleton.mp hm]
    exact Nat.lt_succ_of_le (h.issued n hn)
  issued n hn := by
    rcases List.mem_append.mp hn with hn | hn
    · exact Nat.le_succ_of_le (h.issued n hn)
    · exact Nat.le_of_eq (List.mem_singleton.mp hn)
  depth c hc := by
    rw [Stacks.openElement, List.length_append, List.length_singleton]
    rcases List.mem_append.mp (captures_openElement name p ▸ hc) with hc | hc
    · have := h.depth c hc
      omega
    · rw [(mem_fresh hc).1, h.length_frames]
      exact ⟨Nat.le_add_left .., Nat.le_refl _⟩
  along c hc := by
    rw [Stacks.openElement]
    rcases List.mem_append.mp (captures_openElement name p ▸ hc) with hc | hc
    · rw [List.take_append_of_le_length (h.depth c hc).2]
      exact h.along c hc
    · obtain ⟨hDepth, t, ht, hTakes⟩ := mem_fresh hc
      refine ⟨t.path, h.path_eq ht, ?_⟩
      rw [hDepth, h.length_frames, h.names_of_takes hTakes, List.take_of_length_le]
      simp
  single := by
    rw [captures_openElement, List.map_append, List.nodup_append]
    refine ⟨h.single, nodup_target_fresh name p, fun i hi j hj => ?_⟩
    obtain ⟨c, hc, rfl⟩ := List.mem_map.mp hi
    obtain ⟨d, hd, rfl⟩ := List.mem_map.mp hj
    obtain ⟨_, t, ht, hTakes⟩ := mem_fresh hd
    intro hSame
    rw [← hSame] at ht
    rw [h.not_takes hc ht] at hTakes
    cases hTakes
  parent c hc hDepth := by
    rw [Stacks.openElement]
    rcases List.mem_append.mp (captures_openElement name p ▸ hc) with hc | hc
    · obtain ⟨t, n, ht, hn, hTaken⟩ := h.parent c hc hDepth
      refine ⟨t, n, ?_, ?_, hTaken⟩
      · rw [targets_openElement, List.getElem?_map, ht, Option.map_some, h.not_takes hc ht]
        rfl
      · rwa [List.getElem?_append_left (List.getElem?_eq_some_iff.mp hn).1]
    · obtain ⟨hNew, t, ht, hTakes⟩ := mem_fresh hc
      cases hFrames : p.frames with
      | nil =>
        rw [hNew, hFrames] at hDepth
        simp at hDepth
      | cons f outer =>
        refine ⟨{ t with takenUnder := some f.number }, f.number, ?_, ?_, rfl⟩
        · rw [targets_openElement, List.getElem?_map, ht, Option.map_some, if_pos hTakes, hFrames]
          rfl
        · rw [hNew, hFrames, ← h.numbers_eq, numbers, hFrames]
          simp

theorem getElem?_foldl_deliver_of_some {targets : List Target} {i : Nat} {t : Target}
    (ht : targets[i]? = some t) (cs : List Capture) :
    ∃ u, (cs.foldl deliver targets)[i]? = some u ∧ u.takenUnder = t.takenUnder := by
  rw [getElem?_foldl_deliver, ht]
  exact ⟨_, rfl, rfl⟩

theorem map_path_foldl_deliver (targets : List Target) (cs : List Capture) :
    (cs.foldl deliver targets).map Target.path = targets.map Target.path := by
  apply List.ext_getElem?
  intro i
  rw [List.getElem?_map, List.getElem?_map, getElem?_foldl_deliver, Option.map_map]
  rfl

theorem asStacks_finishBelow {inner outer : List Frame} (hFrames : p.frames = inner ++ outer) :
    (Progress.finishBelow outer.length { p with frames := outer }).asStacks =
      p.asStacks.cut outer.length := by
  simp only [asStacks, Stacks.cut, names, numbers, namesOf, hFrames, take_reverse_map]
  rfl

theorem Consistent.finishBelow (h : Consistent paths p s) {inner outer : List Frame}
    (hFrames : p.frames = inner ++ outer) :
    Consistent paths (Progress.finishBelow outer.length { p with frames := outer })
      (s.cut outer.length) := by
  have hKept := captures_finishBelow (p := { p with frames := outer }) h.ordered.sorted outer.length
  have hOpen : ∀ c ∈ (Progress.finishBelow outer.length { p with frames := outer }).captures,
      c ∈ p.captures ∧ c.depth ≤ outer.length := by
    intro c hc
    rw [hKept, List.mem_filter] at hc
    exact ⟨hc.1, of_decide_eq_true hc.2⟩
  constructor
  case agree => rw [asStacks_finishBelow hFrames, h.agree]
  case ordered => exact ⟨fun c hc => (hOpen c hc).2, hKept ▸ h.ordered.sorted.filter _⟩
  case listed =>
    rw [← h.listed]
    exact map_path_foldl_deliver ..
  case parallel => rw [Stacks.cut, List.length_take, List.length_take, h.parallel]
  case increasing => exact h.increasing.sublist (List.take_sublist ..)
  case issued => exact fun n hn => h.issued n (List.mem_of_mem_take hn)
  case depth =>
    intro c hc
    obtain ⟨hMem, hWithin⟩ := hOpen c hc
    rw [Stacks.cut, List.length_take]
    exact ⟨(h.depth c hMem).1, Nat.le_min.mpr ⟨hWithin, (h.depth c hMem).2⟩⟩
  case along =>
    intro c hc
    obtain ⟨hMem, hWithin⟩ := hOpen c hc
    obtain ⟨path, hPath, hAlong⟩ := h.along c hMem
    refine ⟨path, hPath, ?_⟩
    rw [Stacks.cut, List.take_take, Nat.min_eq_left hWithin, hAlong]
  case single =>
    rw [hKept]
    exact h.single.sublist (List.filter_sublist.map _)
  case parent =>
    intro c hc hDepth
    obtain ⟨hMem, hWithin⟩ := hOpen c hc
    obtain ⟨t, n, ht, hn, hTaken⟩ := h.parent c hMem hDepth
    obtain ⟨u, hu, hSame⟩ := getElem?_foldl_deliver_of_some ht
      (p.captures.dropWhile (·.depth ≤ outer.length))
    refine ⟨u, n, hu, ?_, hSame.trans hTaken⟩
    have hBefore : c.depth - 2 < outer.length := by omega
    rw [Stacks.cut, List.getElem?_take_of_lt hBefore, hn]

theorem Consistent.lastOf?_eq (h : Consistent paths p s) (name : String) :
    lastOf? name s.names =
      match p.frames.dropWhile (·.name != name) with
      | [] => none
      | _ :: outer => some outer.length := by
  rw [← h.names_eq, names, lastOf?_namesOf]

theorem Consistent.closeElement (h : Consistent paths p s) (name : String) :
    Consistent paths (p.closeElement name) (s.closeElement name) := by
  rw [Progress.closeElement, Stacks.closeElement, h.lastOf?_eq name]
  cases hDrop : p.frames.dropWhile (·.name != name) with
  | nil => exact h
  | cons f outer =>
    have hFrames : p.frames = (p.frames.takeWhile (·.name != name) ++ [f]) ++ outer := by
      rw [List.append_assoc, List.singleton_append, ← hDrop, List.takeWhile_append_dropWhile]
    exact h.finishBelow hFrames

theorem Consistent.step (h : Consistent paths p s) (t : Token) :
    Consistent paths (p.step t) (s.step t) := by
  cases t with
  | opening name => exact h.openElement name
  | closing name => exact h.closeElement name
  | text text => exact h.addText text
  | skipped => exact h

theorem Consistent.foldl (h : Consistent paths p s) (ts : List Token) :
    Consistent paths (ts.foldl Progress.step p) (ts.foldl Stacks.step s) := by
  induction ts generalizing p s with
  | nil => exact h
  | cons t ts ih => exact ih (h.step t)

/-- Where a pass over a document stands before an iteration: its state, the two stacks, and the
input that it still has to read. -/
inductive Stands (paths : List Path) (document : String) : Progress → Stacks → List Char → Prop
  | outset : Stands paths document (start paths) ⟨[], [], 0⟩ document.toList
  | next {p : Progress} {s : Stacks} {cs : List Char} (h : Stands paths document p s cs)
    (hMore : cs ≠ []) :
    Stands paths document ((readStep cs).1.foldl Progress.step p)
      ((readStep cs).1.foldl Stacks.step s) (readStep cs).2

/-- The finishing of captures in a pass: the depth that is passed on, and the state at the time. An
end tag has already taken its elements off the stack, and the text in front of it is collected. -/
inductive Finishes (paths : List Path) (document : String) : Nat → Progress → Prop
  | endTag {p : Progress} {s : Stacks} {cs : List Char} {text name : String} {f : Frame}
    {outer : List Frame} (h : Stands paths document p s cs)
    (hRead : (readStep cs).1 = [.text text, .closing name])
    (hFound : (p.addText text).frames.dropWhile (·.name != name) = f :: outer) :
    Finishes paths document outer.length { p.addText text with frames := outer }
  | endOfInput {p : Progress} {s : Stacks} (h : Stands paths document p s []) :
    Finishes paths document 0 p

variable {document : String}

theorem Stands.consistent {cs : List Char} (h : Stands paths document p s cs) :
    Consistent paths p s := by
  induction h with
  | outset => exact consistent_start paths
  | next _ _ ih => exact ih.foldl _

theorem Stands.foldTokens_eq {cs : List Char} (h : Stands paths document p s cs) :
    foldTokens Progress.step p cs = foldTokens Progress.step (start paths) document.toList := by
  induction h with
  | outset => rfl
  | @next p s cs _ hMore ih =>
    have hNext : foldTokens Progress.step p cs =
        foldTokens Progress.step ((readStep cs).1.foldl Progress.step p) (readStep cs).2 := by
      rw [foldTokens, dif_neg hMore]
    rw [← hNext, ih]

theorem Stands.at_end {cs : List Char} (h : Stands paths document p s cs) :
    ∃ s', Stands paths document (foldTokens Progress.step p cs) s' [] := by
  fun_induction foldTokens Progress.step p cs generalizing s with
  | case1 => exact ⟨s, h⟩
  | case2 p cs hMore ih => exact ih (h.next hMore)

theorem collect_of_stands (h : Stands paths document p s []) :
    collect paths document = (p.finishBelow 0).targets.map Target.values := by
  have hEnd : foldTokens Progress.step p [] = p := by
    rw [foldTokens, dif_pos rfl]
  rw [collect, ← h.foldTokens_eq, hEnd]

/-- A capture of a pass belongs to one of the paths. -/
theorem Consistent.target_lt (h : Consistent paths p s) {c : Capture} (hc : c ∈ p.captures) :
    c.target < p.targets.length := by
  obtain ⟨path, hPath, _⟩ := h.along c hc
  rw [← List.length_map Target.path, h.listed]
  exact (List.getElem?_eq_some_iff.mp hPath).1

/-- Whatever elements are taken off the stack before, the captures of a consistent state that are
finished are those that lie too deep. -/
theorem Consistent.finishBelow_eq (h : Consistent paths p s) (outer : List Frame) (depth : Nat) :
    (Progress.finishBelow depth { p with frames := outer }).captures =
        p.captures.filter (·.depth ≤ depth) ∧
      (Progress.finishBelow depth { p with frames := outer }).targets =
        (p.captures.filter (depth < ·.depth)).foldl deliver p.targets := by
  refine ⟨takeWhile_depth_eq_filter h.ordered.sorted depth, ?_⟩
  rw [← dropWhile_depth_eq_filter h.ordered.sorted depth]
  rfl

/-- An end tag is ignored when no element of its name is open. Otherwise what lies deeper than the
last one of the name is finished. -/
theorem Stands.next_closing {cs : List Char} (h : Stands paths document p s cs)
    {text name : String} (hRead : (readStep cs).1 = [.text text, .closing name]) :
    (name ∉ s.names → (readStep cs).1.foldl Progress.step p = p.addText text) ∧
    (name ∈ s.names → ∃ depth q, lastOf? name s.names = some depth ∧
      Finishes paths document depth q ∧
      (readStep cs).1.foldl Progress.step p = q.finishBelow depth) := by
  have hNext : (readStep cs).1.foldl Progress.step p = (p.addText text).closeElement name := by
    rw [hRead]
    rfl
  have hLast := (h.consistent.addText text).lastOf?_eq name
  rw [hNext, Progress.closeElement]
  cases hFound : (p.addText text).frames.dropWhile (·.name != name) with
  | nil =>
    rw [hFound] at hLast
    exact ⟨fun _ => rfl, fun hMem => absurd hMem (lastOf?_eq_none_iff.mp hLast)⟩
  | cons f outer =>
    rw [hFound] at hLast
    refine ⟨fun hNotMem => ?_, fun _ => ⟨_, _, hLast, .endTag h hRead hFound, rfl⟩⟩
    rw [lastOf?_eq_none_iff.mpr hNotMem] at hLast
    cases hLast

/-- Before each iteration of a pass its state and the stacks are consistent. So whenever captures
are finished, at an end tag of an open element or at the end of the input, the ones cut off are
exactly those that lie too deep, the others stay as they are, and each text goes to one of the
paths; at the end no capture is left. -/
theorem pass_consistent (paths : List Path) (document : String) :
    (∀ p s cs, Stands paths document p s cs → Consistent paths p s) ∧
    (∀ p s cs text name, Stands paths document p s cs →
      (readStep cs).1 = [.text text, .closing name] →
        (name ∉ s.names → (readStep cs).1.foldl Progress.step p = p.addText text) ∧
        (name ∈ s.names → ∃ depth q, lastOf? name s.names = some depth ∧
          Finishes paths document depth q ∧
          (readStep cs).1.foldl Progress.step p = q.finishBelow depth)) ∧
    (∀ depth p, Finishes paths document depth p →
      (p.finishBelow depth).captures = p.captures.filter (·.depth ≤ depth) ∧
      (p.finishBelow depth).targets =
        (p.captures.filter (depth < ·.depth)).foldl deliver p.targets ∧
      ∀ c ∈ p.captures, c.target < p.targets.length) ∧
    ∃ p s, Stands paths document p s [] ∧ (p.finishBelow 0).captures = [] ∧
      collect paths document = (p.finishBelow 0).targets.map Target.values := by
  refine ⟨fun p s cs h => h.consistent, fun p s cs text name h => h.next_closing, ?_, ?_⟩
  · intro depth p hFinishes
    cases hFinishes with
    | @endTag p s cs text name f outer h hRead hFound =>
      have hText := h.consistent.addText text
      obtain ⟨hKept, hFinished⟩ := hText.finishBelow_eq outer outer.length
      exact ⟨hKept, hFinished, fun c hc => hText.target_lt hc⟩
    | endOfInput h =>
      obtain ⟨hKept, hFinished⟩ := h.consistent.finishBelow_eq p.frames 0
      exact ⟨hKept, hFinished, fun c hc => h.consistent.target_lt hc⟩
  · have hOutset : Stands paths document _ _ _ := .outset
    obtain ⟨s, hEnd⟩ := hOutset.at_end
    refine ⟨_, s, hEnd, ?_, collect_of_stands hEnd⟩
    refine (hEnd.consistent.finishBelow_eq _ 0).1.trans (List.filter_eq_nil_iff.mpr ?_)
    intro c hc
    have := (hEnd.consistent.depth c hc).1
    simp only [decide_eq_true_eq]
    omega

/-- An end tag that closes two elements, both captured, under one that goes on being captured, and
an end tag after it that comes too late. -/
theorem pass_consistent_nested :
    let paths : List Path := [⟨["r", "a"]⟩, ⟨["r"]⟩, ⟨["r", "a", "b"]⟩]
    let document := "<r><a>x<b>y</a>z</b>"
    ∃ p s cs q p' s' cs', Stands paths document p s cs ∧ Consistent paths p s ∧
      (∃ depth q, lastOf? "a" s.names = some depth ∧ Finishes paths document depth q ∧
        (readStep cs).1.foldl Progress.step p = q.finishBelow depth) ∧
      Finishes paths document 1 q ∧ q.captures.map Capture.depth = [1, 2, 3] ∧
      (q.finishBelow 1).captures = q.captures.filter (·.depth ≤ 1) ∧
      Stands paths document p' s' cs' ∧ s'.names = ["r"] ∧
      (readStep cs').1.foldl Progress.step p' = p'.addText "z" := by
  intro paths document
  have hOpen : Stands paths document _ _ _ :=
    ((Stands.outset.next (by decide)).next (by decide)).next (by decide)
  have hTag : Finishes paths document 1 _ :=
    @Finishes.endTag paths _ _ _ _ "y" "a" ⟨"a", 2⟩ [⟨"r", 1⟩] hOpen (by decide) (by decide)
  have hLate : Stands paths document _ _ _ := hOpen.next (by decide)
  obtain ⟨hConsistent, hEndTag, hCut, _⟩ := pass_consistent paths document
  refine ⟨_, _, _, _, _, _, _, hOpen, hConsistent _ _ _ hOpen, ?_, hTag, by decide,
    (hCut _ _ hTag).1, hLate, by decide, ?_⟩
  · exact (hEndTag _ _ _ "y" "a" hOpen (by decide)).2 (by decide)
  · exact (hEndTag _ _ _ "z" "b" hLate (by decide)).1 (by decide)

end Progress

end PatentFilter.Markup

import PatentFilter.Proofs.Markup.Growth
import PatentFilter.Proofs.Markup.Separation

/-!
# One pass reads the forest

A pass keeps a stack, numbers and captures, but no tree. For one target the pass mirrors the forest
that grows from the same tokens: finished values and captures together are the values at the path,
a capture is open exactly while text belongs to the last value, and the parent that the target
remembers is the open parent at the path exactly if that one already has its child.
-/

namespace PatentFilter.Markup

theorem namesOf_cons (f : Frame) (frames : List Frame) :
    namesOf (f :: frames) = namesOf frames ++ [f.name] := by
  simp [namesOf]

theorem length_namesOf (frames : List Frame) : (namesOf frames).length = frames.length := by
  simp [namesOf]

/-- What the open elements tell, outermost first, begins with what those further out tell. -/
theorem take_reverse_map {α : Type} (tell : Frame → α) (inner outer : List Frame) :
    ((inner ++ outer).map tell).reverse.take outer.length = (outer.map tell).reverse := by
  rw [List.map_append, List.reverse_append, ← List.length_map tell, ← List.length_reverse,
    List.take_left]

theorem takes_cons_iff {t : Target} {above : List String} {name n : String} {number : Nat}
    {frames : List Frame} (hPath : t.path.names = above ++ [name]) :
    t.takes (⟨n, number⟩ :: frames) (frames.head?.map Frame.number) = true ↔
      (namesOf frames = above ∧ n = name) ∧
        ∀ f outer, frames = f :: outer → t.takenUnder ≠ some f.number := by
  have hStands : standsAt (⟨n, number⟩ :: frames) t.path = true ↔
      namesOf frames = above ∧ n = name := by
    rw [standsAt_eq_leadsTo, Path.leadsTo_iff, namesOf_cons, hPath, eq_comm]
    constructor
    · intro h
      obtain ⟨hAbove, hName⟩ := List.append_inj' h rfl
      exact ⟨hAbove, (List.cons.inj hName).1⟩
    · rintro ⟨rfl, rfl⟩
      rfl
  rw [Target.takes, Bool.and_eq_true, hStands]
  cases frames with
  | nil => simp
  | cons f outer => simp

/-- A pass for one path, and the forest that grows from the same tokens. -/
structure Mirrors (above : List String) (name : String) (t : Target) (p : Progress)
    (g : Growth) : Prop where
  targets : p.targets = [t]
  path : t.path.names = above ++ [name]
  names : namesOf p.frames = g.names
  numbers : ∀ f ∈ p.frames, f.number ≤ p.opened
  taken : ∀ n, t.takenUnder = some n → n ≤ p.opened
  parent : ∀ f outer, (f :: outer) <:+ p.frames → namesOf (f :: outer) = above →
    (t.takenUnder = some f.number ↔ g.seen (!above.isEmpty) above name = true)
  captures : (p.captures = [] ∧ g.feeds (!above.isEmpty) above name = false) ∨
    ∃ s, p.captures = [⟨0, above.length + 1, s⟩] ∧ g.feeds (!above.isEmpty) above name = true
  values : t.values ++ p.captures.map Capture.text = readAt (!above.isEmpty) above name g.forest

variable {above : List String} {name : String} {t : Target} {p : Progress} {g : Growth}

theorem mirrors_start (above : List String) (name : String) :
    Mirrors above name ⟨⟨above ++ [name]⟩, none, []⟩ (Progress.start [⟨above ++ [name]⟩])
      (.top []) where
  targets := rfl
  path := rfl
  names := rfl
  numbers := by simp [Progress.start]
  taken := by simp
  parent f outer h := by simp [Progress.start] at h
  captures := .inl ⟨rfl, by cases above <;> rfl⟩
  values := by cases above <;> simp [Progress.start, Growth.forest, readAt, chosen]

theorem Mirrors.addText (h : Mirrors above name t p g) (s : String) :
    Mirrors above name t (p.addText s) (g.addText s) where
  targets := h.targets
  path := h.path
  names := h.names.trans (Growth.names_addText s g).symm
  numbers := h.numbers
  taken := h.taken
  parent := by
    rw [Growth.seen_addText]
    exact h.parent
  captures := by
    rw [Growth.feeds_addText]
    rcases h.captures with ⟨hCaptures, hFeeds⟩ | ⟨s', hCaptures, hFeeds⟩
    · exact .inl ⟨by simp [Progress.addText, hCaptures], hFeeds⟩
    · exact .inr ⟨s' ++ s, by simp [Progress.addText, hCaptures], hFeeds⟩
  values := by
    have hValues := h.values
    rcases h.captures with ⟨hCaptures, hFeeds⟩ | ⟨s', hCaptures, hFeeds⟩
    · rw [Growth.readAt_addText_of_not_feeds s hFeeds, ← hValues]
      simp [Progress.addText, hCaptures]
    · obtain ⟨front, last, hBefore, hAfter⟩ := Growth.readAt_addText_of_feeds s hFeeds
      rw [hBefore, hCaptures] at hValues
      obtain ⟨hFront, hLast⟩ := List.append_inj' hValues rfl
      obtain rfl := (List.cons.inj hLast).1
      rw [hAfter, hFront]
      simp [Progress.addText, hCaptures]

theorem Mirrors.takes_iff (h : Mirrors above name t p g) (n : String) :
    t.takes (⟨n, p.opened + 1⟩ :: p.frames) (p.frames.head?.map Frame.number) = true ↔
      (decide (g.names = above) && n == name && !g.seen (!above.isEmpty) above name) = true := by
  rw [takes_cons_iff h.path, h.names]
  simp only [Bool.and_eq_true, decide_eq_true_eq, beq_iff_eq, Bool.not_eq_true']
  refine and_congr_right fun hAt => ?_
  cases hFrames : p.frames with
  | nil =>
    have hAbove : above = [] := by rw [← hAt.1, ← h.names, hFrames]; rfl
    subst hAbove
    cases g <;> simp [Growth.seen, barred]
  | cons f outer =>
    have hParent := h.parent f outer (hFrames ▸ List.suffix_rfl)
      (by rw [← hFrames, h.names, hAt.1])
    rw [← Bool.not_eq_true, ← hParent]
    constructor
    · intro hNot
      exact hNot f outer rfl
    · rintro hNot f' outer' hEq
      obtain ⟨rfl, rfl⟩ := List.cons.inj hEq
      exact hNot

theorem openElement_of_takes (hTargets : p.targets = [t]) {n : String}
    (hTakes : t.takes (⟨n, p.opened + 1⟩ :: p.frames) (p.frames.head?.map Frame.number) = true) :
    p.openElement n =
      ⟨⟨n, p.opened + 1⟩ :: p.frames, p.opened + 1,
        [{ t with takenUnder := p.frames.head?.map Frame.number }],
        p.captures ++ [⟨0, p.frames.length + 1, ""⟩]⟩ := by
  simp [Progress.openElement, hTargets, hTakes]

theorem openElement_of_not_takes (hTargets : p.targets = [t]) {n : String}
    (hTakes : t.takes (⟨n, p.opened + 1⟩ :: p.frames) (p.frames.head?.map Frame.number) = false) :
    p.openElement n = ⟨⟨n, p.opened + 1⟩ :: p.frames, p.opened + 1, [t], p.captures⟩ := by
  simp [Progress.openElement, hTargets, hTakes]

theorem Mirrors.numbers_openElement (h : Mirrors above name t p g) (n : String) :
    ∀ f ∈ (⟨n, p.opened + 1⟩ : Frame) :: p.frames, f.number ≤ p.opened + 1 := by
  intro f hf
  rcases List.mem_cons.mp hf with rfl | hf
  · exact Nat.le_refl _
  · exact Nat.le_succ_of_le (h.numbers f hf)

theorem Mirrors.openElement_of_takes (h : Mirrors above name t p g) {n : String}
    (hTakes : t.takes (⟨n, p.opened + 1⟩ :: p.frames) (p.frames.head?.map Frame.number) = true) :
    Mirrors above name { t with takenUnder := p.frames.head?.map Frame.number }
      (p.openElement n) (g.openElement n) := by
  have hCounts := (h.takes_iff n).mp hTakes
  obtain ⟨⟨hAt, hName⟩, hUnseen⟩ : (g.names = above ∧ n = name) ∧
      g.seen (!above.isEmpty) above name = false := by simpa using hCounts
  have hDepth : p.frames.length = above.length := by rw [← length_namesOf, h.names, hAt]
  -- an open capture would lie at the path, and so deeper than the parent
  have hNoCapture : p.captures = [] := by
    rcases h.captures with ⟨hCaptures, _⟩ | ⟨_, _, hFeeds⟩
    · exact hCaptures
    · have := Growth.length_lt_of_feeds hFeeds
      rw [hAt] at this
      omega
  rw [Markup.openElement_of_takes h.targets hTakes]
  constructor
  · rfl
  · exact h.path
  · simp [namesOf_cons, h.names]
  · exact h.numbers_openElement n
  · intro k hk
    obtain ⟨f, hf, rfl⟩ := Option.map_eq_some_iff.mp hk
    exact Nat.le_succ_of_le (h.numbers f (List.mem_of_mem_head? hf))
  · intro f outer hSuffix hNames
    have hLength : outer.length + 1 = above.length := by
      rw [← hNames, length_namesOf, List.length_cons]
    rcases List.suffix_cons_iff.mp hSuffix with hEq | hSuffix
    · have := congrArg List.length hEq
      simp only [List.length_cons] at this
      omega
    · have hEq : f :: outer = p.frames :=
        hSuffix.eq_of_length (by rw [List.length_cons, hLength, hDepth])
      have hSome : above.isEmpty = false := by
        cases above with
        | nil => simp at hLength
        | cons m above => rfl
      rw [Growth.seen_openElement, ← hEq]
      simp [hSome, hAt, hName]
  · refine .inr ⟨"", by simp [hNoCapture, hDepth], ?_⟩
    rw [Growth.feeds_openElement, hCounts, Bool.or_true]
  · rw [Growth.readAt_openElement, if_pos hCounts, ← h.values]
    simp [hNoCapture]

theorem Mirrors.openElement_of_not_takes (h : Mirrors above name t p g) {n : String}
    (hTakes : t.takes (⟨n, p.opened + 1⟩ :: p.frames) (p.frames.head?.map Frame.number) = false) :
    Mirrors above name t (p.openElement n) (g.openElement n) := by
  have hCounts : (decide (g.names = above) && n == name &&
      !g.seen (!above.isEmpty) above name) = false :=
    Bool.eq_false_iff.mpr fun hCounts => by simp [(h.takes_iff n).mpr hCounts] at hTakes
  have hSeen : (g.openElement n).seen (!above.isEmpty) above name =
      g.seen (!above.isEmpty) above name := by
    rw [Growth.seen_openElement]
    cases hSeen : g.seen (!above.isEmpty) above name with
    | true => rfl
    | false => simp_all
  rw [Markup.openElement_of_not_takes h.targets hTakes]
  constructor
  · rfl
  · exact h.path
  · simp [namesOf_cons, h.names]
  · exact h.numbers_openElement n
  · exact fun k hk => Nat.le_succ_of_le (h.taken k hk)
  · intro f outer hSuffix hNames
    rcases List.suffix_cons_iff.mp hSuffix with hEq | hSuffix
    · -- the new element is itself a parent at the path; its number is remembered by nobody yet
      obtain ⟨rfl, rfl⟩ := List.cons.inj hEq
      have hNew : g.names ++ [n] = above := by rw [← hNames, namesOf_cons, h.names]
      rw [Growth.seen_openElement_of_new hNew]
      simp only [Bool.false_eq_true, iff_false]
      intro hTaken
      have := h.taken _ hTaken
      omega
    · rw [hSeen]
      exact h.parent f outer hSuffix hNames
  · rw [Growth.feeds_openElement, hCounts, Bool.or_false]
    exact h.captures
  · rw [Growth.readAt_openElement, hCounts, ← h.values]
    simp

theorem Mirrors.finishBelow (h : Mirrors above name t p g) {inner outer : List Frame}
    (hFrames : p.frames = inner ++ outer) :
    ∃ t', Mirrors above name t' (Progress.finishBelow outer.length { p with frames := outer })
      (g.cut outer.length) := by
  have hNames : namesOf outer = (g.cut outer.length).names := by
    rw [Growth.names_cut, ← h.names, hFrames, namesOf, namesOf, take_reverse_map]
  have hNumbers : ∀ f ∈ outer, f.number ≤ p.opened := fun f hf =>
    h.numbers f (hFrames ▸ List.mem_append_right _ hf)
  have hParent : ∀ f rest, (f :: rest) <:+ outer → namesOf (f :: rest) = above →
      (t.takenUnder = some f.number ↔
        (g.cut outer.length).seen (!above.isEmpty) above name = true) := by
    intro f rest hSuffix hAbove
    have hLength : above.length ≤ outer.length := by
      rw [← hAbove, length_namesOf]
      exact hSuffix.length_le
    rw [Growth.seen_cut hLength]
    exact h.parent f rest (hSuffix.trans (hFrames ▸ List.suffix_append ..)) hAbove
  have hValues := h.values
  rcases h.captures with ⟨hCaptures, hFeeds⟩ | ⟨s, hCaptures, hFeeds⟩
  · refine ⟨t, ?_, h.path, hNames, hNumbers, h.taken, hParent, .inl ⟨?_, ?_⟩, ?_⟩
    · simp [Progress.finishBelow, h.targets, hCaptures]
    · simp [Progress.finishBelow, hCaptures]
    · rw [Growth.feeds_cut, hFeeds, Bool.false_and]
    · rw [Growth.forest_cut, ← hValues]
      simp [Progress.finishBelow, hCaptures]
  -- an open capture stays open exactly if its element lies among those that stay open
  · by_cases hDeep : above.length + 1 ≤ outer.length
    · refine ⟨t, ?_, h.path, hNames, hNumbers, h.taken, hParent, .inr ⟨s, ?_, ?_⟩, ?_⟩
      · simp [Progress.finishBelow, h.targets, hCaptures, hDeep]
      · simp [Progress.finishBelow, hCaptures, hDeep]
      · rw [Growth.feeds_cut, hFeeds, Bool.true_and, decide_eq_true_eq]
        exact hDeep
      · rw [Growth.forest_cut, ← hValues]
        simp [Progress.finishBelow, hCaptures, hDeep]
    · refine ⟨{ t with values := t.values ++ [s] }, ?_, h.path, hNames, hNumbers, h.taken, hParent,
        .inl ⟨?_, ?_⟩, ?_⟩
      · simp [Progress.finishBelow, h.targets, hCaptures, hDeep, Progress.deliver]
      · simp [Progress.finishBelow, hCaptures, hDeep]
      · rw [Growth.feeds_cut, hFeeds, Bool.true_and, decide_eq_false_iff_not]
        exact hDeep
      · rw [Growth.forest_cut, ← hValues]
        simp [Progress.finishBelow, hCaptures, hDeep]

theorem Mirrors.closeElement (h : Mirrors above name t p g) (n : String) :
    ∃ t', Mirrors above name t' (p.closeElement n) (g.closeElement n) := by
  obtain ⟨inner, hFrames, hInner⟩ : ∃ inner, p.frames = inner ++ p.frames.dropWhile (·.name != n) ∧
      n ∉ namesOf inner := by
    refine ⟨p.frames.takeWhile (·.name != n), List.takeWhile_append_dropWhile.symm, fun hMem => ?_⟩
    obtain ⟨f, hf, hName⟩ := List.mem_map.mp (List.mem_reverse.mp hMem)
    simpa [hName] using List.all_eq_true.mp List.all_takeWhile f hf
  unfold Progress.closeElement
  split
  · next hDrop =>
    rw [hDrop, List.append_nil] at hFrames
    rw [← hFrames, h.names] at hInner
    exact ⟨t, by rwa [Growth.closeElement_of_notMem hInner]⟩
  · next f outer hDrop =>
    have hName : f.name = n := by
      have hHead := List.head?_dropWhile_not (·.name != n) p.frames
      rw [hDrop] at hHead
      simpa using hHead
    rw [hDrop] at hFrames
    have hNames : g.names = namesOf outer ++ n :: namesOf inner := by
      rw [← h.names, hFrames]
      simp [namesOf, hName]
    rw [Growth.closeElement_eq_cut hNames hInner, length_namesOf]
    have hInnermost : p.frames = (inner ++ [f]) ++ outer := by
      rw [hFrames, List.append_assoc, List.singleton_append]
    exact h.finishBelow hInnermost

theorem Mirrors.step (h : Mirrors above name t p g) (token : Token) :
    ∃ t', Mirrors above name t' (p.step token) (g.step token) := by
  cases token with
  | opening n =>
    cases hTakes : t.takes (⟨n, p.opened + 1⟩ :: p.frames) (p.frames.head?.map Frame.number) with
    | true => exact ⟨_, h.openElement_of_takes hTakes⟩
    | false => exact ⟨t, h.openElement_of_not_takes hTakes⟩
  | closing n => exact h.closeElement n
  | text s => exact ⟨t, h.addText s⟩
  | skipped => exact ⟨t, h⟩

theorem Mirrors.foldl (h : Mirrors above name t p g) (ts : List Token) :
    ∃ t', Mirrors above name t' (ts.foldl Progress.step p) (ts.foldl Growth.step g) := by
  induction ts generalizing t p g with
  | nil => exact ⟨t, h⟩
  | cons token ts ih =>
    obtain ⟨t', h'⟩ := h.step token
    exact ih h'

theorem Mirrors.values_finishBelow_zero (h : Mirrors above name t p g) :
    (p.finishBelow 0).targets.map Target.values =
      [readAt (!above.isEmpty) above name g.forest] := by
  rw [← h.values]
  rcases h.captures with ⟨hCaptures, _⟩ | ⟨s, hCaptures, _⟩
  · simp [Progress.finishBelow, h.targets, hCaptures]
  · simp [Progress.finishBelow, h.targets, hCaptures, Progress.deliver]

/-- No element lies at the empty path. -/
theorem step_of_root (token : Token) {p : Progress}
    (h : p.targets = [⟨⟨[]⟩, none, []⟩] ∧ p.captures = []) :
    (p.step token).targets = [⟨⟨[]⟩, none, []⟩] ∧ (p.step token).captures = [] := by
  obtain ⟨hTargets, hCaptures⟩ := h
  cases token with
  | opening n =>
    simp [Progress.step, Progress.openElement, hTargets, hCaptures, Target.takes, standsAt, areNamed]
  | closing n =>
    rw [Progress.step, Progress.closeElement]
    split
    · exact ⟨hTargets, hCaptures⟩
    · simp [Progress.finishBelow, hTargets, hCaptures]
  | text s => simp [Progress.step, Progress.addText, hTargets, hCaptures]
  | skipped => exact ⟨hTargets, hCaptures⟩

theorem foldl_step_of_root (ts : List Token) {p : Progress}
    (h : p.targets = [⟨⟨[]⟩, none, []⟩] ∧ p.captures = []) :
    (ts.foldl Progress.step p).targets = [⟨⟨[]⟩, none, []⟩] ∧
      (ts.foldl Progress.step p).captures = [] := by
  induction ts generalizing p with
  | nil => exact h
  | cons token ts ih => exact ih (step_of_root token h)

theorem gather_singleton (path : Path) (ts : List Token) :
    gather [path] ts = [valuesAt path.names (forestOf ts)] := by
  rw [gather]
  obtain ⟨names⟩ := path
  rcases List.eq_nil_or_concat names with rfl | ⟨above, name, rfl⟩
  · obtain ⟨hTargets, hCaptures⟩ := foldl_step_of_root ts (p := .start [⟨[]⟩]) ⟨rfl, rfl⟩
    simp [Progress.finishBelow, hTargets, hCaptures, valuesAt_nil]
  · obtain ⟨t, h⟩ := (mirrors_start above name).foldl ts
    rw [List.concat_eq_append, h.values_finishBelow_zero, valuesAt_concat, forestOf]

theorem gather_eq_map_valuesAt (paths : List Path) (ts : List Token) :
    gather paths ts = paths.map fun p => valuesAt p.names (forestOf ts) := by
  rw [gather_eq_map]
  exact List.map_congr_left fun p _ => by rw [gather_singleton]; rfl

theorem collect_eq_map_valuesAt (paths : List Path) (document : String) :
    collect paths document =
      paths.map fun p => valuesAt p.names (forestOf (tokens document.toList)) := by
  rw [collect_eq_gather, gather_eq_map_valuesAt]

/-- Whatever the paths and the document, each position gives what the forest holds at its path, and
positions beyond the paths give nothing. -/
theorem getD_collect_eq_valuesAt (paths : List Path) (document : String) (i : Nat) :
    (collect paths document).getD i [] =
      match paths[i]? with
      | some p => valuesAt p.names (forestOf (tokens document.toList))
      | none => [] := by
  rw [collect_eq_map_valuesAt, List.getD_eq_getElem?_getD, List.getElem?_map]
  cases paths[i]? <;> rfl

/-- End tags that close several elements, a second child, a second root and an unfinished tag. -/
example :
    collect [⟨["a", "b"]⟩, ⟨["a"]⟩] "<a>x<b>y<c>z</a><a><b>u</b><b>v</b></c><" =
      [["yz", "u"], ["xyz", "uv<"]] := by
  decide +kernel

end PatentFilter.Markup

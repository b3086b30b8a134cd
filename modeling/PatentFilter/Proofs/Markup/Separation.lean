import PatentFilter.Markup.Capture

/-!
# Targets are separate

A pass over several paths does for each of them what a pass over that path alone does. What one
target sees of a pass is the pass over its path alone, step by step, as long as the captures stand
in the order of their depths; for then the captures that an end tag finishes are those that lie
too deep, whichever target they belong to.
-/

namespace PatentFilter.Markup.Progress

/-- Captures lie no deeper than the open elements and stand in the order of their depths. -/
structure Ordered (p : Progress) : Prop where
  within : ∀ c ∈ p.captures, c.depth ≤ p.frames.length
  sorted : p.captures.Pairwise fun c d => c.depth ≤ d.depth

theorem takeWhile_depth_eq_filter {cs : List Capture}
    (h : cs.Pairwise fun c d => c.depth ≤ d.depth) (depth : Nat) :
    cs.takeWhile (·.depth ≤ depth) = cs.filter (·.depth ≤ depth) := by
  induction cs with
  | nil => rfl
  | cons c cs ih =>
    obtain ⟨hHead, hTail⟩ := List.pairwise_cons.mp h
    by_cases hc : c.depth ≤ depth
    · rw [List.takeWhile_cons_of_pos (by simpa using hc), ih hTail,
        List.filter_cons_of_pos (by simpa using hc)]
    · rw [List.takeWhile_cons_of_neg (by simpa using hc),
        List.filter_cons_of_neg (by simpa using hc)]
      refine (List.filter_eq_nil_iff.mpr fun d hd => ?_).symm
      have := hHead d hd
      simp only [decide_eq_true_eq]
      omega

theorem dropWhile_depth_eq_filter {cs : List Capture}
    (h : cs.Pairwise fun c d => c.depth ≤ d.depth) (depth : Nat) :
    cs.dropWhile (·.depth ≤ depth) = cs.filter (depth < ·.depth) := by
  induction cs with
  | nil => rfl
  | cons c cs ih =>
    obtain ⟨hHead, hTail⟩ := List.pairwise_cons.mp h
    by_cases hc : c.depth ≤ depth
    · rw [List.dropWhile_cons_of_pos (by simpa using hc), ih hTail,
        List.filter_cons_of_neg (by simpa using hc)]
    · rw [List.dropWhile_cons_of_neg (by simpa using hc)]
      refine (List.filter_eq_self.mpr fun d hd => ?_).symm
      rcases List.mem_cons.mp hd with rfl | hd
      · simpa using hc
      · have := hHead d hd
        simp only [decide_eq_true_eq]
        omega

theorem ordered_start (paths : List Path) : (start paths).Ordered :=
  ⟨by simp [start], by simp [start]⟩

theorem Ordered.addText {p : Progress} (h : p.Ordered) (s : String) : (p.addText s).Ordered where
  within c hc := by
    obtain ⟨d, hd, rfl⟩ := List.mem_map.mp hc
    exact h.within d hd
  sorted := List.pairwise_map.mpr h.sorted

theorem Ordered.openElement {p : Progress} (h : p.Ordered) (name : String) :
    (p.openElement name).Ordered := by
  have hFresh : ∀ c ∈ p.targets.zipIdx.filterMap fun t =>
      if t.1.takes (⟨name, p.opened + 1⟩ :: p.frames) (p.frames.head?.map Frame.number) then
        some (⟨t.2, p.frames.length + 1, ""⟩ : Capture) else none,
      c.depth = p.frames.length + 1 := by
    intro c hc
    obtain ⟨t, _, ht⟩ := List.mem_filterMap.mp hc
    split at ht
    · rw [← Option.some.inj ht]
    · cases ht
  constructor
  · intro c hc
    rcases List.mem_append.mp hc with hc | hc
    · exact Nat.le_succ_of_le (h.within c hc)
    · exact Nat.le_of_eq (hFresh c hc)
  · refine List.pairwise_append.mpr ⟨h.sorted, ?_, fun c hc d hd => ?_⟩
    · exact List.pairwise_of_forall_mem_list fun c hc d hd =>
        Nat.le_of_eq ((hFresh c hc).trans (hFresh d hd).symm)
    · rw [hFresh d hd]
      exact Nat.le_succ_of_le (h.within c hc)

theorem captures_finishBelow {p : Progress} (h : p.captures.Pairwise fun c d => c.depth ≤ d.depth)
    (depth : Nat) : (p.finishBelow depth).captures = p.captures.filter (·.depth ≤ depth) :=
  takeWhile_depth_eq_filter h depth

theorem Ordered.closeElement {p : Progress} (h : p.Ordered) (name : String) :
    (p.closeElement name).Ordered := by
  unfold Progress.closeElement
  split
  · exact h
  · next outer _ =>
    have hKept := captures_finishBelow (p := { p with frames := outer }) h.sorted outer.length
    constructor
    · intro c hc
      rw [hKept] at hc
      exact of_decide_eq_true (List.mem_filter.mp hc).2
    · rw [hKept]
      exact h.sorted.filter _

theorem Ordered.step {p : Progress} (h : p.Ordered) (t : Token) : (p.step t).Ordered := by
  cases t with
  | opening name => exact h.openElement name
  | closing name => exact h.closeElement name
  | text s => exact h.addText s
  | skipped => exact h

/-- What the target at one position sees of a pass. -/
def only (i : Nat) (p : Progress) : Progress :=
  { p with
    targets := p.targets[i]?.toList
    captures := (p.captures.filter (·.target = i)).map fun c => { c with target := 0 } }

theorem only_start (i : Nat) (paths : List Path) :
    (start paths).only i = start paths[i]?.toList := by
  cases h : paths[i]? <;> simp [only, start, h]

theorem only_addText (i : Nat) (s : String) (p : Progress) :
    (p.addText s).only i = (p.only i).addText s := by
  simp only [Progress.only, addText, List.filter_map, List.map_map]
  rfl

/-- The captures that a start tag opens, seen from the target at one position. -/
theorem filter_target_fresh (takes : Target → Bool) (depth k i : Nat) (ts : List Target) :
    ((ts.zipIdx k).filterMap fun t =>
        if takes t.1 then some (⟨t.2, depth, ""⟩ : Capture) else none).filter
        (·.target = k + i) =
      ts[i]?.toList.filterMap fun t =>
        if takes t then some (⟨k + i, depth, ""⟩ : Capture) else none := by
  induction ts generalizing k i with
  | nil => simp
  | cons t ts ih =>
    cases i with
    | zero =>
      have hTail : ((ts.zipIdx (k + 1)).filterMap fun t =>
          if takes t.1 then some (⟨t.2, depth, ""⟩ : Capture) else none).filter
          (·.target = k + 0) = [] := by
        refine List.filter_eq_nil_iff.mpr fun c hc => ?_
        obtain ⟨u, hu, hc⟩ := List.mem_filterMap.mp hc
        have hLe : k + 1 ≤ u.2 := (List.mem_zipIdx hu).1
        split at hc
        · obtain rfl := Option.some.inj hc
          simp only [decide_eq_true_eq]
          omega
        · cases hc
      rw [List.zipIdx_cons, List.filterMap_cons]
      cases hTakes : takes t with
      | false => exact hTail.trans (by simp [hTakes])
      | true =>
        simp only [if_true]
        rw [List.filter_cons_of_pos (by simp), hTail]
        simp [hTakes]
    | succ i =>
      have hi := ih (k + 1) i
      rw [Nat.add_right_comm] at hi
      rw [List.zipIdx_cons, List.filterMap_cons, List.getElem?_cons_succ, ← Nat.add_assoc, ← hi]
      cases hTakes : takes t with
      | false => rfl
      | true =>
        simp only [if_true]
        exact List.filter_cons_of_neg (by simp; omega)

theorem only_openElement (i : Nat) (name : String) (p : Progress) :
    (p.openElement name).only i = (p.only i).openElement name := by
  obtain ⟨frames, opened, targets, captures⟩ := p
  have hFresh := filter_target_fresh
    (·.takes (⟨name, opened + 1⟩ :: frames) (frames.head?.map Frame.number))
    (frames.length + 1) 0 i targets
  simp only [Nat.zero_add] at hFresh
  cases hTarget : targets[i]? with
  | none => simp [Progress.only, openElement, hFresh, hTarget]
  | some t =>
    simp only [Progress.only, openElement, List.filter_append, List.map_append, List.length_cons,
      List.getElem?_map, hFresh, hTarget]
    cases h : t.takes (⟨name, opened + 1⟩ :: frames) (frames.head?.map Frame.number) <;> simp [h]

def receive (texts : List String) (t : Target) : Target :=
  { t with values := t.values ++ texts }

theorem getElem?_foldl_deliver (cs : List Capture) (ts : List Target) (i : Nat) :
    (cs.foldl deliver ts)[i]? =
      ts[i]?.map (receive ((cs.filter (·.target = i)).map Capture.text)) := by
  induction cs generalizing ts with
  | nil => cases h : ts[i]? <;> simp [receive, h]
  | cons c cs ih =>
    rw [List.foldl_cons, ih, deliver, List.getElem?_modify]
    by_cases h : c.target = i
    · cases ts[i]? <;> simp [h, receive]
    · cases ts[i]? <;> simp [h]

theorem foldl_deliver_toList (cs : List Capture) (hTargets : ∀ c ∈ cs, c.target = 0)
    (t : Option Target) :
    cs.foldl deliver t.toList = (t.map (receive (cs.map Capture.text))).toList := by
  have hAll : cs.filter (·.target = 0) = cs :=
    List.filter_eq_self.mpr fun c hc => by simpa using hTargets c hc
  apply List.ext_getElem?
  intro j
  rw [getElem?_foldl_deliver]
  cases t with
  | none => simp
  | some t =>
    cases j with
    | zero => simp [hAll]
    | succ j => simp

theorem only_finishBelow (i : Nat) {p : Progress}
    (h : p.captures.Pairwise fun c d => c.depth ≤ d.depth) (depth : Nat) :
    (p.finishBelow depth).only i = (p.only i).finishBelow depth := by
  have hOnly : (p.only i).captures.Pairwise fun c d => c.depth ≤ d.depth :=
    List.pairwise_map.mpr (h.filter _)
  have hTargets : (p.finishBelow depth).targets[i]?.toList =
      ((p.only i).finishBelow depth).targets := by
    simp only [finishBelow]
    rw [getElem?_foldl_deliver, dropWhile_depth_eq_filter h, dropWhile_depth_eq_filter hOnly,
      Progress.only, foldl_deliver_toList]
    · simp [List.filter_map, List.filter_filter, Function.comp_def, Bool.and_comm]
    · intro c hc
      obtain ⟨d, _, rfl⟩ := List.mem_map.mp (List.mem_filter.mp hc).1
      rfl
  have hCaptures : ((p.finishBelow depth).only i).captures =
      ((p.only i).finishBelow depth).captures := by
    rw [captures_finishBelow hOnly]
    simp only [Progress.only]
    rw [captures_finishBelow h]
    simp [List.filter_map, List.filter_filter, Function.comp_def, Bool.and_comm]
  simp only [Progress.only] at hCaptures ⊢
  rw [hTargets, hCaptures]
  rfl

theorem only_closeElement (i : Nat) (name : String) {p : Progress} (h : p.Ordered) :
    (p.closeElement name).only i = (p.only i).closeElement name := by
  have hFrames : (p.only i).frames = p.frames := rfl
  unfold closeElement
  rw [hFrames]
  split
  · rfl
  · next outer _ => exact only_finishBelow (p := { p with frames := outer }) i h.sorted outer.length

theorem only_step (i : Nat) {p : Progress} (h : p.Ordered) (t : Token) :
    (p.step t).only i = (p.only i).step t := by
  cases t with
  | opening name => exact only_openElement i name p
  | closing name => exact only_closeElement i name h
  | text s => exact only_addText i s p
  | skipped => rfl

theorem Ordered.foldl {p : Progress} (h : p.Ordered) (ts : List Token) :
    (ts.foldl Progress.step p).Ordered := by
  induction ts generalizing p with
  | nil => exact h
  | cons t ts ih => exact ih (h.step t)

theorem only_foldl (i : Nat) {p : Progress} (h : p.Ordered) (ts : List Token) :
    (ts.foldl Progress.step p).only i = ts.foldl Progress.step (p.only i) := by
  induction ts generalizing p with
  | nil => rfl
  | cons t ts ih => rw [List.foldl_cons, List.foldl_cons, ih (h.step t), only_step i h t]

end PatentFilter.Markup.Progress

namespace PatentFilter.Markup

/-- The texts at each of the paths in a document given by its tokens. -/
def gather (paths : List Path) (ts : List Token) : List (List String) :=
  ((ts.foldl Progress.step (.start paths)).finishBelow 0).targets.map Target.values

theorem collect_eq_gather (paths : List Path) (document : String) :
    collect paths document = gather paths (tokens document.toList) := by
  rw [collect, foldTokens_eq_foldl, gather]

theorem length_gather (paths : List Path) (ts : List Token) :
    (gather paths ts).length = paths.length := by
  simp [gather, Progress.length_targets_foldl, Progress.start]

theorem toList_getElem?_gather (paths : List Path) (ts : List Token) (i : Nat) :
    (gather paths ts)[i]?.toList = gather paths[i]?.toList ts := by
  have hOrdered := (Progress.ordered_start paths).foldl ts
  have hOnly := Progress.only_finishBelow i hOrdered.sorted 0
  rw [Progress.only_foldl i (Progress.ordered_start paths), Progress.only_start] at hOnly
  rw [gather, gather, ← hOnly, Progress.only, List.getElem?_map, Option.toList_map]

/-- A pass over several paths reads at each of them what a pass over it alone reads. -/
theorem gather_eq_map (paths : List Path) (ts : List Token) :
    gather paths ts = paths.map fun p => (gather [p] ts).getD 0 [] := by
  apply List.ext_getElem?
  intro i
  have hAlone := toList_getElem?_gather paths ts i
  rw [List.getElem?_map]
  cases hPath : paths[i]? with
  | none =>
    rw [List.getElem?_eq_none_iff] at hPath
    rw [Option.map_none, List.getElem?_eq_none_iff, length_gather]
    exact hPath
  | some p =>
    have hLength : i < (gather paths ts).length := by
      rw [length_gather]
      exact (List.getElem?_eq_some_iff.mp hPath).1
    rw [List.getElem?_eq_getElem hLength] at hAlone ⊢
    rw [hPath] at hAlone
    simp only [Option.toList_some] at hAlone
    simp [← hAlone]

theorem collect_eq_map (paths : List Path) (document : String) :
    collect paths document = paths.map fun p => (collect [p] document).getD 0 [] := by
  simp only [collect_eq_gather]
  exact gather_eq_map paths (tokens document.toList)

theorem getD_collect (paths : List Path) (document : String) (i : Fin paths.length) :
    (collect paths document).getD i [] = (collect [paths[i]] document).getD 0 [] := by
  have hAt := congrArg (·[i.val]?) (collect_eq_map paths document)
  simp only [List.getElem?_map, List.getElem?_eq_getElem i.isLt, Option.map_some] at hAt
  rw [List.getD_eq_getElem?_getD, hAt]
  rfl

theorem collect_append (paths others : List Path) (document : String) :
    collect (paths ++ others) document = collect paths document ++ collect others document := by
  rw [collect_eq_map, List.map_append, ← collect_eq_map, ← collect_eq_map]

/-- Each position gives what its path alone gives. So any choice of positions, in any order and
with repetitions, gives those values in that order, and further paths on either side only add
their own values there. -/
theorem collect_separate (paths : List Path) (document : String) :
    (∀ i : Fin paths.length,
      (collect paths document).getD i [] = (collect [paths[i]] document).getD 0 []) ∧
    (∀ positions : List (Fin paths.length),
      collect (positions.map paths.get) document =
        positions.map fun i => (collect paths document).getD i.val []) ∧
    ∀ before after, collect (before ++ paths ++ after) document =
      collect before document ++ collect paths document ++ collect after document := by
  refine ⟨getD_collect paths document, fun positions => ?_, fun before after => ?_⟩
  · rw [collect_eq_map, List.map_map]
    exact List.map_congr_left fun i _ => (getD_collect paths document i).symm
  · rw [collect_append, collect_append]

/-- A repeated path, a prefix of another path, the empty path. -/
example :
    collect [⟨["a", "b"]⟩, ⟨["a"]⟩, ⟨[]⟩, ⟨["a", "b"]⟩] "<a>x<b>y</a>" =
      [["y"], ["xy"], [], ["y"]] := by
  decide +kernel

end PatentFilter.Markup

import Mathlib.Data.List.Nodup
import PatentFilter.Markup.Token
import PatentFilter.Proofs.Query.SoundCodes
import PatentFilter.Proofs.QuerySet.Compiled

/-!
# Reading queries back

The text of a query is cut at the bars outside of quotes, and each part is read as a path with a
condition in brackets. That gives back where the query looks and what for, whatever stands in the
levels of its code: a stem holds no quote, so what looks like syntax in it stays between its quotes.
Two queries have the same text only if they have the same scheme and stem.
-/

namespace PatentFilter

/-- What the text of a query shows: the steps down to the anchor, and for each test the element, the
child that holds its text, and the stem. -/
structure Outline where
  anchor : List String
  tests : List (String × String × String)
  deriving DecidableEq, Repr

namespace Query

def outline (q : Query) : Outline :=
  ⟨q.anchor.names, q.tests.map fun t => (t.place.element, t.place.textElement, t.stem)⟩

/-- A text cut at the bars that stand outside of quotes, the part before the first bar apart; the
flag tells whether a quote is open. -/
def cutAtBars : Bool → List Char → List Char × List (List Char)
  | _, [] => ([], [])
  | false, ' ' :: '|' :: ' ' :: cs =>
    let cut := cutAtBars false cs
    ([], cut.1 :: cut.2)
  | quoted, c :: cs =>
    let cut := cutAtBars (quoted != (c == '\'')) cs
    (c :: cut.1, cut.2)

def readSteps? : List Char → Option (List String)
  | '/' :: cs => some ((cs.splitOn '/').map String.ofList)
  | _ => none

/-- Reads `child, 'stem')]`. -/
def readCondition? (cs : List Char) : Option (String × String) := do
  let (child, cs) ← Markup.cutAt? ", '".toList cs
  let (stem, cs) ← Markup.cutAt? "'".toList cs
  if cs = ")]".toList then return (String.ofList child, String.ofList stem) else none

/-- Reads `/step/.../element[starts-with(child, 'stem')]`: the steps before the element, and the
element, the child and the stem. -/
def readTest? (cs : List Char) : Option (List String × String × String × String) := do
  let (path, cs) ← Markup.cutAt? "[starts-with(".toList cs
  let steps ← readSteps? path
  let element ← steps.getLast?
  let condition ← readCondition? cs
  return (steps.dropLast, element, condition)

/-- Reads a whole query, the tests of which have their anchor in common. -/
def read? (text : String) : Option Outline := do
  let (part, parts) := cutAtBars false text.toList
  let (anchor, test) ← readTest? part
  let others ← parts.mapM readTest?
  if ∀ other ∈ others, other.1 = anchor then return ⟨anchor, test :: others.map Prod.snd⟩
  else none

/-! ### Parts without a bar outside of quotes -/

/-- A part goes on over the text behind it: no bar in it is outside of quotes, and its quotes are
closed. -/
def IsWhole (part : List Char) : Prop :=
  ∀ cs, cutAtBars false (part ++ cs) = (part ++ (cutAtBars false cs).1, (cutAtBars false cs).2)

theorem IsWhole.append {a b : List Char} (ha : IsWhole a) (hb : IsWhole b) : IsWhole (a ++ b) := by
  intro cs
  rw [List.append_assoc, ha, hb, List.append_assoc]

theorem isWhole_of_plain {part : List Char} (h : ∀ c ∈ part, c ≠ ' ' ∧ c ≠ '\'') :
    IsWhole part := by
  intro cs
  induction part with
  | nil => rfl
  | cons c part ih =>
    obtain ⟨⟨hSpace, hQuote⟩, hPart⟩ := List.forall_mem_cons.mp h
    have hFlag : (false != (c == '\'')) = false := by simp [hQuote]
    rw [List.cons_append, cutAtBars, hFlag, ih hPart]
    · rfl
    · intro _ _ hBar
      exact absurd hBar hSpace

theorem cutAtBars_quoted {stem : List Char} (h : '\'' ∉ stem) (cs : List Char) :
    cutAtBars true (stem ++ '\'' :: cs) =
      (stem ++ '\'' :: (cutAtBars false cs).1, (cutAtBars false cs).2) := by
  induction stem with
  | nil => simp [cutAtBars]
  | cons c stem ih =>
    rw [List.mem_cons, not_or] at h
    have hFlag : (true != (c == '\'')) = true := by simp [Ne.symm h.1]
    rw [List.cons_append, cutAtBars, hFlag, ih h.2]
    · rfl
    · intro _ hOpen
      cases hOpen

theorem isWhole_literal {stem : List Char} (h : '\'' ∉ stem) :
    IsWhole (' ' :: '\'' :: (stem ++ ['\''])) := by
  intro cs
  have hCut := cutAtBars_quoted h cs
  simp [cutAtBars, hCut]

theorem cutAtBars_intercalate {part : List Char} {parts : List (List Char)}
    (h : ∀ p ∈ part :: parts, IsWhole p) :
    cutAtBars false ([' ', '|', ' '].intercalate (part :: parts)) = (part, parts) := by
  induction parts generalizing part with
  | nil =>
    have hCut := h part List.mem_cons_self []
    simpa [cutAtBars] using hCut
  | cons next parts ih =>
    obtain ⟨hPart, hParts⟩ := List.forall_mem_cons.mp h
    rw [List.intercalate_cons_cons, List.append_assoc, hPart]
    simp [cutAtBars, ih hParts]

/-! ### Tests and queries with plain names -/

/-- A name that ends nowhere in a text but where it is meant to. -/
def IsStepName (s : String) : Prop :=
  ∀ c ∈ s.toList, c ∉ ['/', '[', ',', ' ', '\'']

instance (s : String) : Decidable (IsStepName s) :=
  List.decidableBAll (· ∉ ['/', '[', ',', ' ', '\'']) s.toList

/-- The test and its anchor have plain names, and the stem has no quote. -/
structure IsLegible (anchor : Markup.Path) (t : FieldTest) : Prop where
  anchor : ∀ name ∈ anchor.names, IsStepName name
  element : IsStepName t.place.element
  child : IsStepName t.place.textElement
  stem : '\'' ∉ t.stem.toList

theorem toList_text_cons (name : String) (names : List String) :
    (Markup.Path.mk (name :: names)).text.toList =
      '/' :: ['/'].intercalate ((name :: names).map String.toList) := by
  induction names generalizing name with
  | nil => simp [Markup.Path.text]
  | cons next names ih =>
    have hNext := ih next
    simp only [Markup.Path.text, List.map_cons, String.toList_join, List.flatMap_cons] at hNext ⊢
    rw [hNext, List.intercalate_cons_cons]
    simp

theorem readSteps?_text {p : Markup.Path} (hNe : p.names ≠ [])
    (h : ∀ name ∈ p.names, IsStepName name) : readSteps? p.text.toList = some p.names := by
  obtain ⟨names⟩ := p
  cases names with
  | nil => exact absurd rfl hNe
  | cons name names =>
    have hSlash : ∀ cs ∈ (name :: names).map String.toList, '/' ∉ cs := by
      rw [List.forall_mem_map]
      intro n hn hMem
      exact h n hn '/' hMem (by simp)
    rw [toList_text_cons, readSteps?, List.splitOn_intercalate '/' hSlash (by simp), List.map_map]
    simp [Function.comp_def]

/-- The characters of a test as they are cut up when it is read. -/
theorem toList_expression (anchor : Markup.Path) (t : FieldTest) :
    (t.expression anchor).toList =
      (anchor.extend [t.place.element]).text.toList ++ '[' :: ("starts-with(".toList ++
        (t.place.textElement.toList ++ ',' :: ([' ', '\''] ++
          (t.stem.toList ++ '\'' :: ([] ++ ")]".toList))))) := by
  simp [FieldTest.expression, Markup.Path.text, Markup.Path.extend]

section

variable {anchor : Markup.Path} {t : FieldTest}

theorem IsLegible.steps (h : IsLegible anchor t) :
    ∀ name ∈ (anchor.extend [t.place.element]).names, IsStepName name := by
  intro name hName
  rcases List.mem_append.mp hName with hAnchor | hElement
  · exact h.anchor name hAnchor
  · rw [List.mem_singleton.mp hElement]
    exact h.element

theorem notMem_text {p : Markup.Path} (h : ∀ name ∈ p.names, IsStepName name) {c : Char}
    (hc : c ∈ ['[', ',', ' ', '\'']) : c ∉ p.text.toList := by
  rw [Markup.Path.text, String.toList_join, List.mem_flatMap]
  rintro ⟨step, hStep, hMem⟩
  obtain ⟨name, hName, rfl⟩ := List.mem_map.mp hStep
  rw [String.toList_append, List.mem_append] at hMem
  rcases hMem with hSlash | hMem
  · rw [List.mem_singleton.mp hSlash] at hc
    exact absurd hc (by decide)
  · exact h name hName c hMem (List.mem_cons_of_mem _ hc)

theorem readCondition?_eq {child stem : List Char} (hChild : ',' ∉ child) (hStem : '\'' ∉ stem) :
    readCondition? (child ++ ',' :: ([' ', '\''] ++ (stem ++ '\'' :: ([] ++ ")]".toList)))) =
      some (String.ofList child, String.ofList stem) := by
  have hMarks : ", '".toList = ',' :: [' ', '\''] ∧ "'".toList = '\'' :: [] := ⟨rfl, rfl⟩
  simp only [readCondition?, hMarks, Markup.cutAt?_of_notMem hChild, Markup.cutAt?_of_notMem hStem,
    Option.bind_eq_bind, Option.bind_some]
  rfl

theorem readTest?_expression (h : IsLegible anchor t) :
    readTest? (t.expression anchor).toList =
      some (anchor.names, t.place.element, t.place.textElement, t.stem) := by
  have hMark : "[starts-with(".toList = '[' :: "starts-with(".toList := rfl
  have hBracket : '[' ∉ (anchor.extend [t.place.element]).text.toList :=
    notMem_text h.steps (by decide)
  have hComma : ',' ∉ t.place.textElement.toList := fun hMem => h.child _ hMem (by decide)
  have hSteps : readSteps? (anchor.extend [t.place.element]).text.toList =
      some (anchor.names ++ [t.place.element]) :=
    readSteps?_text (by simp [Markup.Path.extend]) h.steps
  simp only [readTest?, toList_expression, hMark, Markup.cutAt?_of_notMem hBracket, hSteps,
    readCondition?_eq hComma h.stem, Option.bind_eq_bind, Option.bind_some, List.getLast?_concat,
    List.dropLast_concat, String.ofList_toList]
  rfl

theorem isWhole_expression (h : IsLegible anchor t) : IsWhole (t.expression anchor).toList := by
  have hPath : IsWhole (anchor.extend [t.place.element]).text.toList :=
    isWhole_of_plain fun c hMem => by
      constructor
      · rintro rfl
        exact notMem_text h.steps (by decide) hMem
      · rintro rfl
        exact notMem_text h.steps (by decide) hMem
  have hChild : IsWhole t.place.textElement.toList :=
    isWhole_of_plain fun c hMem => by
      constructor
      · rintro rfl
        exact h.child _ hMem (by decide)
      · rintro rfl
        exact h.child _ hMem (by decide)
  have hOpening : IsWhole "[starts-with(".toList := isWhole_of_plain (by simp)
  have hComma : IsWhole [','] := isWhole_of_plain (by simp)
  have hClosing : IsWhole [')', ']'] := isWhole_of_plain (by simp)
  have hParts := hPath.append (hOpening.append (hChild.append
    (hComma.append ((isWhole_literal h.stem).append hClosing))))
  rw [toList_expression]
  simpa using hParts

end

theorem mapM_readTest?_expression {anchor : Markup.Path} {ts : List FieldTest}
    (h : ∀ t ∈ ts, IsLegible anchor t) :
    (ts.map fun t => (t.expression anchor).toList).mapM readTest? =
      some (ts.map fun t => (anchor.names, t.place.element, t.place.textElement, t.stem)) := by
  induction ts with
  | nil => rfl
  | cons t ts ih =>
    obtain ⟨hHead, hTail⟩ := List.forall_mem_cons.mp h
    rw [List.map_cons, List.mapM_cons, readTest?_expression hHead, ih hTail]
    rfl

/-- A query with plain names and at least one test is read back from its text. -/
theorem read?_text {q : Query} (hNe : q.tests ≠ []) (h : ∀ t ∈ q.tests, IsLegible q.anchor t) :
    read? q.text = some q.outline := by
  obtain ⟨code, anchor, tests⟩ := q
  cases tests with
  | nil => exact absurd rfl hNe
  | cons t ts =>
    obtain ⟨hHead, hTail⟩ := List.forall_mem_cons.mp h
    have hCut : cutAtBars false (Query.text ⟨code, anchor, t :: ts⟩).toList =
        ((t.expression anchor).toList, ts.map fun t => (t.expression anchor).toList) := by
      rw [text, String.toList_intercalate, testTexts, List.map_map]
      apply cutAtBars_intercalate
      rw [← List.map_cons, List.forall_mem_map]
      exact fun t' ht' => isWhole_expression (h t' ht')
    simp [read?, hCut, readTest?_expression hHead, mapM_readTest?_expression hTail, outline]

/-! ### The layouts of the schemes -/

theorem isStepName_layout (s : Scheme) :
    (∀ name ∈ s.layout.anchor.names, IsStepName name) ∧
      ∀ p ∈ s.layout.places, IsStepName p.element ∧ IsStepName p.textElement := by
  cases s <;> decide

theorem scheme_eq_of_anchor {s s' : Scheme} (h : s.layout.anchor.names = s'.layout.anchor.names) :
    s = s' := by
  cases s <;> cases s' <;> simp [Scheme.layout] at h ⊢

theorem places_ne_nil (s : Scheme) : s.layout.places ≠ [] := by
  cases s <;> decide

section

variable {c c' : Code}

theorem isLegible_testAt (h : c.fault? = none) {p : Place} (hp : p ∈ c.scheme.layout.places) :
    IsLegible c.scheme.layout.anchor (c.testAt p) where
  anchor := (isStepName_layout c.scheme).1
  element := ((isStepName_layout c.scheme).2 p hp).1
  child := ((isStepName_layout c.scheme).2 p hp).2
  stem := Code.notMem_text fun part hPart =>
    (Code.fault?_eq_none_iff_isSoundPart.mp h part hPart).unquoted

theorem read?_text_ofSound (h : c.fault? = none) :
    read? (ofSound c).text = some (ofSound c).outline := by
  apply read?_text
  · rw [tests_ofSound, ne_eq, List.map_eq_nil_iff]
    exact places_ne_nil c.scheme
  · rw [tests_ofSound, List.forall_mem_map]
    exact fun p hp => isLegible_testAt h hp

theorem text_ofSound_eq_iff (h : c.fault? = none) (h' : c'.fault? = none) :
    (ofSound c).text = (ofSound c').text ↔ c.scheme = c'.scheme ∧ c.text = c'.text := by
  constructor
  · intro hText
    have hOutline : (ofSound c).outline = (ofSound c').outline := by
      rw [← Option.some_inj, ← read?_text_ofSound h, ← read?_text_ofSound h', hText]
    obtain ⟨hAnchor, hTests⟩ := Outline.mk.inj hOutline
    have hScheme : c.scheme = c'.scheme := scheme_eq_of_anchor hAnchor
    obtain ⟨p, hp⟩ := List.exists_mem_of_ne_nil _ (places_ne_nil c'.scheme)
    rw [tests_ofSound, tests_ofSound, hScheme, List.map_map, List.map_map] at hTests
    have hTest := List.map_inj_left.mp hTests p hp
    exact ⟨hScheme, (Prod.mk.inj (Prod.mk.inj hTest).2).2⟩
  · rintro ⟨hScheme, hStem⟩
    simp only [text, testTexts, ofSound, hScheme, hStem]

theorem expression_testAt_eq_iff (h : c.fault? = none) (h' : c'.fault? = none) {p p' : Place}
    (hp : p ∈ c.scheme.layout.places) (hp' : p' ∈ c'.scheme.layout.places) :
    (c.testAt p).expression c.scheme.layout.anchor =
        (c'.testAt p').expression c'.scheme.layout.anchor ↔
      c.scheme = c'.scheme ∧ p.location = p'.location ∧ c.text = c'.text := by
  constructor
  · intro hText
    have hRead := readTest?_expression (isLegible_testAt h hp)
    rw [hText, readTest?_expression (isLegible_testAt h' hp')] at hRead
    obtain ⟨hAnchor, hTest⟩ := Prod.mk.inj (Option.some.inj hRead)
    obtain ⟨hElement, hTest⟩ := Prod.mk.inj hTest
    obtain ⟨_, hStem⟩ := Prod.mk.inj hTest
    have hScheme : c.scheme = c'.scheme := scheme_eq_of_anchor hAnchor.symm
    rw [hScheme] at hp
    have hPlace := List.inj_on_of_nodup_map (Layout.nodup_elements c'.scheme) hp hp' hElement.symm
    exact ⟨hScheme, congrArg Place.location hPlace, hStem.symm⟩
  · rintro ⟨hScheme, hLocation, hStem⟩
    rw [hScheme] at hp
    obtain rfl := List.inj_on_of_nodup_map (Layout.nodup_locations c'.scheme) hp hp' hLocation
    simp only [Code.testAt, hScheme, hStem]

end

theorem exists_code_of_firing {s : QuerySet} (hs : s.Reachable) {f : Firing}
    (hf : s.firing? f.hit = some f) :
    ∃ c p, c.fault? = none ∧ p ∈ c.scheme.layout.places ∧ f.query = ofSound c ∧
      f.test = c.testAt p := by
  obtain ⟨hQuery, hTest, _⟩ := QuerySet.firing?_eq_some_iff.mp hf
  obtain ⟨c, hc⟩ := hs.built f.query (List.mem_of_getElem? hQuery)
  obtain ⟨hNone, hBuilt⟩ := ofCode_eq_ok_iff.mp hc
  rw [hBuilt] at hTest
  obtain ⟨p, hp, hTestAt⟩ := getElem?_tests_ofSound_iff.mp hTest
  exact ⟨c, p, hNone, List.mem_of_getElem? hp, hBuilt, hTestAt.symm⟩

/-- The text of every query that a code has is read back as the anchor and the tests of the query.
So two codes have queries with the same text exactly if scheme and text are the same, and what a
firing shows tells the scheme, the location and the stem. -/
theorem text_read_back :
    (∀ c q, ofCode c = .ok q → read? q.text = some q.outline) ∧
    (∀ c c' q q', ofCode c = .ok q → ofCode c' = .ok q' →
      (q.text = q'.text ↔ c.scheme = c'.scheme ∧ c.text = c'.text)) ∧
    ∀ (s s' : QuerySet) (f f' : Firing), s.Reachable → s'.Reachable →
      s.firing? f.hit = some f → s'.firing? f'.hit = some f' →
      (f.text = f'.text ↔ f.query.scheme = f'.query.scheme ∧
        f.test.place.location = f'.test.place.location ∧ f.test.stem = f'.test.stem) ∧
      ∀ document, s.evaluate document = some f.hit → f.hit.location = f.test.place.location := by
  refine ⟨fun c q hq => ?_, fun c c' q q' hq hq' => ?_, ?_⟩
  · obtain ⟨hNone, rfl⟩ := ofCode_eq_ok_iff.mp hq
    exact read?_text_ofSound hNone
  · obtain ⟨hNone, rfl⟩ := ofCode_eq_ok_iff.mp hq
    obtain ⟨hNone', rfl⟩ := ofCode_eq_ok_iff.mp hq'
    exact text_ofSound_eq_iff hNone hNone'
  · intro s s' f f' hs hs' hf hf'
    obtain ⟨c, p, hNone, hp, hQuery, hTest⟩ := exists_code_of_firing hs hf
    obtain ⟨c', p', hNone', hp', hQuery', hTest'⟩ := exists_code_of_firing hs' hf'
    constructor
    · rw [Firing.text, Firing.text, hQuery, hTest, hQuery', hTest']
      exact expression_testAt_eq_iff hNone hNone' hp hp'
    · intro document hHit
      obtain ⟨g, hg, _, _, _, hLocation, _⟩ := hs.indexed.exists_firing hHit
      obtain rfl : f = g := Option.some.inj (hf.symm.trans hg)
      exact hLocation.symm

/-- A code that looks like the text of a query; two codes whose levels run together alike; and what
fires for the first of them in the citation data. -/
theorem text_read_back_bars :
    let odd : Code := .uspc "7 | /A[starts-with(B, (\n"
    let c : Code := .cpc "H" "04" "N" "21"
    let c' : Code := .cpc "H0" "4" "N2" "1"
    let s := QuerySet.empty.push (ofSound c)
    let document := "<PATDOC><SDOBI><B500><B510><B516><PDAT>H04N21"
    let f : Firing := ⟨ofSound c, c.testAt ⟨.secondary, "B516", "PDAT"⟩,
      ⟨0, 1, .secondary, "H04N21"⟩⟩
    ofCode odd = .ok (ofSound odd) ∧
      read? (ofSound odd).text = some ⟨["PATDOC", "SDOBI", "B500", "B520"],
        [("B521", "PDAT", odd.text), ("B522", "PDAT", odd.text)]⟩ ∧
      (ofSound c).text = (ofSound c').text ∧
      s.evaluate document = some f.hit ∧ s.firing? f.hit = some f ∧
      f.hit.location = f.test.place.location := by
  intro odd c c' s document f
  obtain ⟨hRead, hText, hFiring⟩ := text_read_back
  have hOdd : ofCode odd = .ok (ofSound odd) := ofCode_eq_ok_iff.mpr ⟨by decide, rfl⟩
  have hReachable : s.Reachable := .push .empty (c := c) rfl
  have hHit : s.evaluate document = some f.hit := by decide +kernel
  exact ⟨hOdd, hRead odd _ hOdd, (hText c c' _ _ rfl rfl).mpr ⟨rfl, by decide⟩, hHit, rfl,
    (hFiring s s f f hReachable hReachable rfl rfl).2 document hHit⟩

end Query

end PatentFilter

import PatentFilter.Code.Written

/-!
# Written codes are read back

A code is written as an object whose members are its scheme and its levels. An object is read as the
code exactly if its members are these, in whatever order, once the members with other keys are left
out. So nothing is lost by writing, and what is read is what would be written again.
-/

namespace PatentFilter

namespace Value

/-- A map whose keys are texts. -/
def object (members : List (String × Value)) : Value :=
  .map (members.map fun m => (.text m.1, m.2))

/-- The values that an object has under a key. -/
def under (key : String) (members : List (String × Value)) : List Value :=
  (members.filter (·.1 = key)).map Prod.snd

theorem under_cons_self (key : String) (v : Value) (members : List (String × Value)) :
    under key ((key, v) :: members) = v :: under key members := by
  simp [under]

theorem under_cons_of_ne {key k : String} (h : k ≠ key) (v : Value)
    (members : List (String × Value)) : under key ((k, v) :: members) = under key members := by
  simp [under, h]

theorem under_filter {key : String} {p : String → Bool} (h : p key = true)
    (members : List (String × Value)) :
    under key (members.filter fun m => p m.1) = under key members := by
  rw [under, under, List.filter_filter]
  congr 1
  apply List.filter_congr
  intro m _
  by_cases hKey : m.1 = key
  · simp [hKey, h]
  · simp [hKey]

theorem filter_eq_singleton_iff {m : String × Value} {members : List (String × Value)} :
    members.filter (·.1 = m.1) = [m] ↔ under m.1 members = [m.2] := by
  constructor
  · intro h
    rw [under, h]
    rfl
  · intro h
    obtain ⟨m', hOnly, hValue⟩ := List.map_eq_singleton_iff.mp h
    have hMem : m' ∈ members.filter (·.1 = m.1) := by simp [hOnly]
    have hKey : m'.1 = m.1 := by simpa using (List.mem_filter.mp hMem).2
    rw [hOnly, Prod.ext hKey hValue]

theorem filter_key_of_nodup {wanted : List (String × Value)} (h : (wanted.map Prod.fst).Nodup)
    {m : String × Value} (hm : m ∈ wanted) : wanted.filter (·.1 = m.1) = [m] := by
  induction wanted with
  | nil => cases hm
  | cons w wanted ih =>
    obtain ⟨hNew, hRest⟩ := List.nodup_cons.mp h
    rcases List.mem_cons.mp hm with rfl | hm
    · have hNone : wanted.filter (·.1 = m.1) = [] := by
        rw [List.filter_eq_nil_iff]
        intro w hw hKey
        exact hNew (List.mem_map.mpr ⟨w, hw, by simpa using hKey⟩)
      rw [List.filter_cons_of_pos (by simp), hNone]
    · have hKey : w.1 ≠ m.1 := by
        intro hEq
        exact hNew (List.mem_map.mpr ⟨m, hm, hEq.symm⟩)
      rw [List.filter_cons_of_neg (by simpa using hKey), ih hRest hm]

/-- Members with different keys are all that an object has under these keys, exactly if each of
them is all that it has under its own. -/
theorem filter_keys_perm_iff {wanted : List (String × Value)} (h : (wanted.map Prod.fst).Nodup)
    (members : List (String × Value)) :
    (members.filter (·.1 ∈ wanted.map Prod.fst)).Perm wanted ↔
      ∀ m ∈ wanted, under m.1 members = [m.2] := by
  simp only [← filter_eq_singleton_iff]
  constructor
  · intro hPerm m hm
    have hKey : m.1 ∈ wanted.map Prod.fst := List.mem_map_of_mem hm
    have hAlone := hPerm.filter (·.1 = m.1)
    rw [filter_key_of_nodup h hm, List.perm_singleton, List.filter_filter] at hAlone
    rw [← hAlone]
    apply List.filter_congr
    intro m' _
    by_cases hSame : m'.1 = m.1
    · simp only [hSame, hKey, decide_true, Bool.and_self]
    · simp only [hSame, decide_false, Bool.false_and]
  · intro hAll
    induction wanted generalizing members with
    | nil => simp
    | cons w wanted ih =>
      obtain ⟨hNew, hRest⟩ := List.nodup_cons.mp h
      have hParts := List.filter_append_perm (·.1 = w.1)
        (members.filter (·.1 ∈ (w :: wanted).map Prod.fst))
      refine hParts.symm.trans ?_
      have hHead : (members.filter (·.1 ∈ (w :: wanted).map Prod.fst)).filter (·.1 = w.1) = [w] := by
        rw [List.filter_filter, ← hAll w List.mem_cons_self]
        apply List.filter_congr
        intro m _
        by_cases hSame : m.1 = w.1
        · simp [hSame]
        · simp [hSame]
      have hTail : (members.filter (·.1 ∈ (w :: wanted).map Prod.fst)).filter
          (fun m => !decide (m.1 = w.1)) = members.filter (·.1 ∈ wanted.map Prod.fst) := by
        rw [List.filter_filter]
        apply List.filter_congr
        intro m _
        by_cases hSame : m.1 = w.1
        · simp only [hSame, hNew, decide_true, decide_false, Bool.not_true, Bool.false_and]
        · simp [hSame]
      rw [hHead, hTail, List.singleton_append, List.perm_cons]
      exact ih hRest members fun m hm => hAll m (List.mem_cons_of_mem w hm)

end Value

open Value

namespace Variant

theorem tag_of_ofTag {α : Type} [Variant α] {s : String} {a : α} (h : ofTag s = .ok a) :
    tag a = s := by
  unfold ofTag at h
  split at h
  · next found hFound =>
    obtain rfl := Except.ok.inj h
    simpa using List.find?_some hFound
  · cases h

end Variant

namespace Scheme

theorem ofName_eq_ok_iff {v : Value} {s : Scheme} :
    Variant.ofName v = .ok s ↔ v = .text (Variant.tag s) := by
  constructor
  · intro h
    cases v with
    | text t => rw [Variant.tag_of_ofTag h]
    | _ => cases h
  · rintro rfl
    exact s.ofTag_tag

theorem tag_injective {s s' : Scheme} (h : Variant.tag s = Variant.tag s') : s = s' := by
  have hTag := s.ofTag_tag
  rw [h, s'.ofTag_tag] at hTag
  exact (Except.ok.inj hTag).symm

/-- The keys that say something about a code of the scheme. -/
def keys (s : Scheme) : List String :=
  schemeKey :: s.levels.map Level.name

theorem nodup_keys (s : Scheme) : s.keys.Nodup := by
  cases s <;> decide

theorem nodup_names (s : Scheme) : (s.levels.map Level.name).Nodup :=
  (List.nodup_cons.mp s.nodup_keys).2

end Scheme

theorem Level.name_ne_schemeKey (l : Level) : l.name ≠ schemeKey := by
  cases l <;> decide

theorem Level.eq_of_name_eq {levels : List Level} (hNames : (levels.map Level.name).Nodup)
    {i j : Nat} {l l' : Level} (hl : levels[i]? = some l) (hl' : levels[j]? = some l')
    (h : l.name = l'.name) : i = j := by
  have hi : i < (levels.map Level.name).length := by
    rw [List.length_map]
    exact (List.getElem?_eq_some_iff.mp hl).1
  apply (List.getElem?_inj hi hNames).mp
  simp [hl, hl', h]

namespace Code

theorem bind_eq_ok_iff {ε α β : Type} {x : Except ε α} {f : α → Except ε β} {b : β} :
    (x >>= f) = .ok b ↔ ∃ a, x = .ok a ∧ f a = .ok b := by
  cases x with
  | error e => simp [bind, Except.bind]
  | ok a => simp [bind, Except.bind]

theorem splitScheme_cons_of_ne {k : Value} (h : ¬ k.isText schemeKey = true) (found : Option Scheme)
    (v : Value) (rest : List (Value × Value)) :
    splitScheme found ((k, v) :: rest) =
      (do
        let r ← splitScheme found rest
        return (r.1, (k, v) :: r.2)) := by
  cases found <;> rw [splitScheme, if_neg h]

/-- The scheme found before and the values under its key must make one scheme together. -/
theorem splitScheme_eq_ok_iff {found : Option Scheme} {entries : List (String × Value)}
    {s : Scheme} {others : List (Value × Value)} :
    splitScheme found (entries.map fun m => (.text m.1, m.2)) = .ok (s, others) ↔
      (found.toList.map fun s => Value.text (Variant.tag s)) ++ under schemeKey entries =
        [.text (Variant.tag s)] ∧
      others = (entries.filter (·.1 ≠ schemeKey)).map fun m => (.text m.1, m.2) := by
  induction entries generalizing found others with
  | nil =>
    cases found with
    | none => simp [splitScheme, under]
    | some s' =>
      constructor
      · rintro ⟨⟩
        exact ⟨rfl, rfl⟩
      · rintro ⟨hTag, rfl⟩
        have hSame : Variant.tag s' = Variant.tag s := by simpa [under] using hTag
        rw [Scheme.tag_injective hSame]
        rfl
  | cons m entries ih =>
    obtain ⟨k, v⟩ := m
    rw [List.map_cons]
    by_cases hKey : k = schemeKey
    · subst hKey
      rw [under_cons_self, List.filter_cons_of_neg (by simp)]
      have hText : (Value.text schemeKey).isText schemeKey = true := isText_iff.mpr rfl
      cases found with
      | none =>
        rw [splitScheme, if_pos hText, bind_eq_ok_iff]
        simp only [Scheme.ofName_eq_ok_iff, ih, Option.toList_none, Option.toList_some, List.map_nil,
          List.map_cons, List.nil_append, List.cons_append]
        constructor
        · rintro ⟨s', rfl, hOne⟩
          exact hOne
        · rintro ⟨hOne, rfl⟩
          obtain ⟨rfl, hNone⟩ := List.cons.inj hOne
          exact ⟨s, rfl, by rw [hNone], rfl⟩
      | some s' =>
        rw [splitScheme, if_pos hText]
        simp
    · have hOther : ¬ (Value.text k).isText schemeKey = true := by simp [isText, hKey]
      rw [under_cons_of_ne hKey, List.filter_cons_of_pos (by simpa using hKey),
        splitScheme_cons_of_ne hOther, bind_eq_ok_iff]
      constructor
      · rintro ⟨⟨s', others'⟩, hRest, hEq⟩
        obtain ⟨rfl, rfl⟩ := Prod.mk.inj (Except.ok.inj hEq)
        obtain ⟨hTag, rfl⟩ := ih.mp hRest
        exact ⟨hTag, rfl⟩
      · rintro ⟨hTag, rfl⟩
        exact ⟨_, ih.mpr ⟨hTag, rfl⟩, rfl⟩

/-- The contents read for a level, as values. -/
def heldAt (got : List (Option String)) (i : Nat) : List Value :=
  (got[i]?.join.toList).map .text

theorem heldAt_of_getElem? {got : List (Option String)} {i : Nat} {o : Option String}
    (h : got[i]? = some o) : heldAt got i = o.toList.map .text := by
  rw [heldAt, h]
  rfl

theorem readEntries_cons_of_notMem {levels : List Level} {k : String}
    (h : k ∉ levels.map Level.name) (got : List (Option String)) (v : Value)
    (rest : List (Value × Value)) :
    readEntries levels got ((.text k, v) :: rest) = readEntries levels got rest := by
  have hFind : (levels.findIdx? fun l => l.name == k) = none := by
    rw [List.findIdx?_eq_none_iff]
    intro l hl
    simp only [beq_eq_false_iff_ne]
    rintro rfl
    exact h (List.mem_map_of_mem hl)
  rw [readEntries, levelAt?, hFind]
  rfl

theorem readEntries_cons_of_level {levels : List Level} (hNames : (levels.map Level.name).Nodup)
    {i : Nat} {l : Level} (hLevel : levels[i]? = some l) (got : List (Option String)) (v : Value)
    (rest : List (Value × Value)) :
    readEntries levels got ((.text l.name, v) :: rest) =
      (match got[i]?.join with
      | some _ => .error (.repeatedField l.name)
      | none => do
        let s ← v.asText
        readEntries levels (got.set i (some s)) rest) := by
  have hFind : (levels.findIdx? fun l' => l'.name == l.name) = some i := by
    obtain ⟨hi, rfl⟩ := List.getElem?_eq_some_iff.mp hLevel
    rw [List.findIdx?_eq_some_iff_getElem]
    refine ⟨hi, by simp, fun j hj hSame => ?_⟩
    have hj' := List.getElem?_eq_getElem (Nat.lt_trans hj hi)
    have := Level.eq_of_name_eq hNames hj' hLevel (by simpa using hSame)
    omega
  rw [readEntries, levelAt?, hFind]
  simp only [bind, Except.bind, hLevel]
  cases got[i]?.join <;> rfl

/-- A text held for a level counts as much as the same text still to be read. -/
theorem heldAt_set_append {levels : List Level} (hNames : (levels.map Level.name).Nodup)
    {got : List (Option String)} {i : Nat} {l : Level} (hLevel : levels[i]? = some l)
    (hi : i < got.length) (hHeld : got[i]?.join = none) (s : String)
    (entries : List (String × Value)) {j : Nat} {l' : Level} (hLevel' : levels[j]? = some l') :
    heldAt (got.set i (some s)) j ++ under l'.name entries =
      heldAt got j ++ under l'.name ((l.name, .text s) :: entries) := by
  by_cases hSame : j = i
  · subst hSame
    obtain rfl : l = l' := Option.some.inj (hLevel.symm.trans hLevel')
    rw [heldAt_of_getElem? (List.getElem?_set_self hi), heldAt, hHeld, under_cons_self]
    rfl
  · have hNe : l.name ≠ l'.name := fun h =>
      hSame (Level.eq_of_name_eq hNames hLevel' hLevel h.symm)
    rw [under_cons_of_ne hNe, heldAt, heldAt, List.getElem?_set_ne (Ne.symm hSame)]

/-- For each level, what was read before and the values under its name must make at most one text
together, and that one is then held. -/
theorem readEntries_eq_ok_iff {levels : List Level} (hNames : (levels.map Level.name).Nodup)
    {got got' : List (Option String)} (hLength : got.length = levels.length)
    {entries : List (String × Value)} :
    readEntries levels got (entries.map fun m => (.text m.1, m.2)) = .ok got' ↔
      got'.length = levels.length ∧ ∀ i l, levels[i]? = some l →
        heldAt got i ++ under l.name entries = heldAt got' i := by
  induction entries generalizing got with
  | nil =>
    simp only [List.map_nil, readEntries, under, List.filter_nil, List.append_nil, Except.ok.injEq]
    constructor
    · rintro rfl
      exact ⟨hLength, fun _ _ _ => rfl⟩
    · rintro ⟨hLength', hHeld⟩
      apply List.ext_getElem (hLength.trans hLength'.symm)
      intro i hi hi'
      have hSame := hHeld i _ (List.getElem?_eq_getElem (hLength ▸ hi))
      rw [heldAt_of_getElem? (List.getElem?_eq_getElem hi),
        heldAt_of_getElem? (List.getElem?_eq_getElem hi')] at hSame
      cases hOld : got[i] <;> cases hNew : got'[i] <;> simp_all
  | cons m entries ih =>
    obtain ⟨k, v⟩ := m
    rw [List.map_cons]
    by_cases hKey : k ∈ levels.map Level.name
    · obtain ⟨l, hl, rfl⟩ := List.mem_map.mp hKey
      obtain ⟨i, hLevel⟩ := List.mem_iff_getElem?.mp hl
      rw [readEntries_cons_of_level hNames hLevel]
      have hi : i < got.length := hLength ▸ (List.getElem?_eq_some_iff.mp hLevel).1
      cases hHeld : got[i]?.join with
      | some s =>
        -- the level has contents already, so any more are too many
        constructor
        · rintro ⟨⟩
        · rintro ⟨_, hSame⟩
          have hTwo := congrArg List.length (hSame i l hLevel)
          rw [under_cons_self, heldAt, heldAt, hHeld] at hTwo
          exfalso
          cases hNew : got'[i]?.join <;> simp [hNew] at hTwo
      | none =>
        have hStored : ∀ s j l', levels[j]? = some l' → _ := fun s _ _ hLevel' =>
          heldAt_set_append hNames hLevel hi hHeld s entries hLevel'
        have hRest : ∀ s, _ := fun s => @ih (got.set i (some s)) (by simpa using hLength)
        change (_ >>= _) = _ ↔ _
        rw [bind_eq_ok_iff]
        simp only [asText_eq_ok_iff, hRest]
        constructor
        · rintro ⟨s, rfl, hLength', hHeld'⟩
          refine ⟨hLength', fun j l' hLevel' => ?_⟩
          rw [← hStored s j l' hLevel', hHeld' j l' hLevel']
        · rintro ⟨hLength', hHeld'⟩
          obtain ⟨s, rfl⟩ : ∃ s, v = .text s := by
            have hHead := hHeld' i l hLevel
            rw [heldAt, hHeld, under_cons_self, heldAt] at hHead
            cases hNew : got'[i]?.join with
            | none => simp [hNew] at hHead
            | some s =>
              rw [hNew] at hHead
              exact ⟨s, (List.cons.inj hHead).1⟩
          refine ⟨s, rfl, hLength', fun j l' hLevel' => ?_⟩
          rw [hStored s j l' hLevel', hHeld' j l' hLevel']
    · rw [readEntries_cons_of_notMem hKey, ih hLength]
      refine and_congr_right fun _ => forall₃_congr fun i l hLevel => ?_
      have hNe : k ≠ l.name := by
        rintro rfl
        exact hKey (List.mem_map_of_mem (List.mem_of_getElem? hLevel))
      rw [under_cons_of_ne hNe]

theorem complete_eq_ok_iff {levels : List Level} {got : List (Option String)} {parts : List String}
    (hLength : got.length = levels.length) :
    complete (levels.zip got) = .ok parts ↔ got = parts.map some := by
  induction levels generalizing got parts with
  | nil =>
    obtain rfl := List.eq_nil_of_length_eq_zero hLength
    cases parts <;> simp [complete]
  | cons l levels ih =>
    obtain ⟨o, got, rfl⟩ := List.exists_cons_of_length_eq_add_one hLength
    rw [List.length_cons, List.length_cons, Nat.succ.injEq] at hLength
    rw [List.zip_cons_cons]
    cases o with
    | none => cases parts <;> simp [complete]
    | some s =>
      rw [complete, bind_eq_ok_iff]
      simp only [ih hLength]
      cases parts with
      | nil => simp [pure, Except.pure]
      | cons p parts =>
        simp only [pure, Except.pure, Except.ok.injEq, List.cons.injEq, List.map_cons,
          Option.some.injEq]
        constructor
        · rintro ⟨_, hGot, rfl, rfl⟩
          exact ⟨rfl, hGot⟩
        · rintro ⟨rfl, hGot⟩
          exact ⟨parts, hGot, rfl, rfl⟩

theorem getElem?_fields {c : Code} {i : Nat} {l : Level} {part : String} :
    c.fields[i]? = some (l, part) ↔ c.scheme.levels[i]? = some l ∧ c.parts[i]? = some part :=
  List.getElem?_zip_eq_some

theorem ofPartList_eq_ok_iff {s : Scheme} {parts : List String} {c : Code} :
    ofPartList s parts = .ok c ↔ c.scheme = s ∧ c.parts = parts := by
  rw [← ofParts?_eq_some_iff, ofPartList]
  cases ofParts? s parts <;> simp

theorem ofEntries_eq_ok_iff {s : Scheme} {entries : List (String × Value)} {c : Code} :
    ofEntries s (entries.map fun m => (.text m.1, m.2)) = .ok c ↔
      c.scheme = s ∧ ∀ f ∈ c.fields, under f.1.name entries = [.text f.2] := by
  have hEmpty : ∀ i, heldAt (s.levels.map fun _ => none) i = [] := by
    intro i
    rw [heldAt, List.getElem?_map]
    cases s.levels[i]? <;> rfl
  rw [ofEntries, bind_eq_ok_iff]
  simp only [bind_eq_ok_iff, ofPartList_eq_ok_iff,
    readEntries_eq_ok_iff s.nodup_names (List.length_map ..), hEmpty, List.nil_append]
  constructor
  · rintro ⟨got, ⟨hLength, hHeld⟩, parts, hComplete, rfl, rfl⟩
    rw [complete_eq_ok_iff hLength] at hComplete
    refine ⟨rfl, fun f hf => ?_⟩
    obtain ⟨i, hField⟩ := List.mem_iff_getElem?.mp hf
    obtain ⟨hLevel, hPart⟩ := getElem?_fields.mp hField
    rw [hHeld i f.1 hLevel, hComplete, heldAt_of_getElem? (o := some f.2) (by simp [hPart])]
    rfl
  · rintro ⟨rfl, hFields⟩
    have hLength : (c.parts.map some).length = c.scheme.levels.length := by
      rw [List.length_map, c.length_parts]
    refine ⟨c.parts.map some, ⟨hLength, fun i l hLevel => ?_⟩, c.parts,
      (complete_eq_ok_iff hLength).mpr rfl, rfl, rfl⟩
    have hi : i < c.parts.length := by
      rw [c.length_parts]
      exact (List.getElem?_eq_some_iff.mp hLevel).1
    have hPart := List.getElem?_eq_getElem hi
    have hField := List.mem_of_getElem? (getElem?_fields.mpr ⟨hLevel, hPart⟩)
    rw [hFields _ hField, heldAt_of_getElem? (o := some c.parts[i]) (by simp [hPart])]
    rfl

/-- The members of the object that a code is written as. -/
def members (c : Code) : List (String × Value) :=
  (schemeKey, .text (Variant.tag c.scheme)) :: c.fields.map fun f => (f.1.name, .text f.2)

theorem toValue_eq_object (c : Code) : c.toValue = .object c.members := by
  simp [toValue, Value.object, members]

theorem map_fst_members (c : Code) : c.members.map Prod.fst = c.scheme.keys := by
  have hLevels : c.fields.map Prod.fst = c.scheme.levels :=
    List.map_fst_zip (Nat.le_of_eq c.length_parts.symm)
  rw [members, Scheme.keys, List.map_cons, List.map_map, ← hLevels, List.map_map]
  rfl

theorem exists_text_of_mem_members {c : Code} {m : String × Value} (h : m ∈ c.members) :
    ∃ s, m.2 = .text s := by
  rcases List.mem_cons.mp h with rfl | h
  · exact ⟨_, rfl⟩
  · obtain ⟨f, _, rfl⟩ := List.mem_map.mp h
    exact ⟨_, rfl⟩

theorem ofValue_object_eq_ok_iff {entries : List (String × Value)} {c : Code} :
    ofValue (.object entries) = .ok c ↔ ∀ m ∈ c.members, under m.1 entries = [m.2] := by
  have hOthers : ∀ f : Level × String,
      under f.1.name (entries.filter (·.1 ≠ schemeKey)) = under f.1.name entries := by
    intro f
    apply under_filter (p := fun k => decide (k ≠ schemeKey))
    simpa using f.1.name_ne_schemeKey
  rw [members, List.forall_mem_cons, List.forall_mem_map, Value.object, ofValue, bind_eq_ok_iff]
  constructor
  · rintro ⟨⟨s, others⟩, hSplit, hRead⟩
    obtain ⟨hTag, rfl⟩ := splitScheme_eq_ok_iff.mp hSplit
    obtain ⟨rfl, hFields⟩ := ofEntries_eq_ok_iff.mp hRead
    exact ⟨hTag, fun f hf => (hOthers f).symm.trans (hFields f hf)⟩
  · rintro ⟨hTag, hFields⟩
    refine ⟨(c.scheme, _), splitScheme_eq_ok_iff.mpr ⟨hTag, rfl⟩, ?_⟩
    exact ofEntries_eq_ok_iff.mpr ⟨rfl, fun f hf => (hOthers f).trans (hFields f hf)⟩

theorem ofValue_object_eq_ok_iff_perm {entries : List (String × Value)} {c : Code} :
    ofValue (.object entries) = .ok c ↔
      (entries.filter (·.1 ∈ c.scheme.keys)).Perm c.members := by
  have hKeys : (c.members.map Prod.fst).Nodup := by
    rw [map_fst_members]
    exact c.scheme.nodup_keys
  rw [ofValue_object_eq_ok_iff, ← map_fst_members, filter_keys_perm_iff hKeys]

theorem ofValue_object_of_perm {c : Code} {others entries : List (String × Value)}
    (hOthers : ∀ m ∈ others, m.1 ∉ c.scheme.keys) (hPerm : entries.Perm (c.members ++ others)) :
    ofValue (.object entries) = .ok c := by
  have hOwn : c.members.filter (·.1 ∈ c.scheme.keys) = c.members := by
    rw [List.filter_eq_self, ← map_fst_members]
    intro m hm
    exact decide_eq_true (List.mem_map_of_mem hm)
  have hNone : others.filter (·.1 ∈ c.scheme.keys) = [] := by
    rw [List.filter_eq_nil_iff]
    simpa using hOthers
  have hFiltered := hPerm.filter (·.1 ∈ c.scheme.keys)
  rw [List.filter_append, hNone, List.append_nil, hOwn] at hFiltered
  exact ofValue_object_eq_ok_iff_perm.mpr hFiltered

theorem ofValue_object_of_perm_members {c : Code} {entries : List (String × Value)}
    (h : entries.Perm c.members) : ofValue (.object entries) = .ok c := by
  have hNone : ∀ m ∈ ([] : List (String × Value)), m.1 ∉ c.scheme.keys := by simp
  apply ofValue_object_of_perm hNone
  rwa [List.append_nil]

theorem ofValue_object_members (c : Code) : ofValue (.object c.members) = .ok c :=
  ofValue_object_of_perm_members (List.Perm.refl _)

theorem ofValue_list (c : Code) :
    ofValue (.list (.text (Variant.tag c.scheme) :: c.parts.map .text)) = .ok c := by
  cases c <;> rfl

/-- A code with whatever contents is read back from the object that it is written as, also with the
members in another order and with members of other keys among them, and from the list of its scheme
and its contents. Two codes have the same members only if they are the same. And an object is read
as a code only if it has one text, and nothing else, under each key of the scheme; without its
members of other keys it is then the object of the code. -/
theorem ofValue_written (c : Code) :
    c.toValue = .object c.members ∧ ofValue c.toValue = .ok c ∧
    (∀ others entries, (∀ m ∈ others, m.1 ∉ c.scheme.keys) → entries.Perm (c.members ++ others) →
      ofValue (.object entries) = .ok c) ∧
    ofValue (.list (.text (Variant.tag c.scheme) :: c.parts.map .text)) = .ok c ∧
    (∀ d : Code, c.members.Perm d.members ↔ c = d) ∧
    ∀ entries, ofValue (.object entries) = .ok c →
      (∀ key ∈ c.scheme.keys, ∃ s, under key entries = [.text s]) ∧
      (entries.filter (·.1 ∈ c.scheme.keys)).Perm c.members := by
  refine ⟨c.toValue_eq_object, ?_, fun _ _ => ofValue_object_of_perm, ofValue_list c, fun d => ?_,
    fun entries hRead => ⟨fun key hKey => ?_, ofValue_object_eq_ok_iff_perm.mp hRead⟩⟩
  · rw [toValue_eq_object]
    exact ofValue_object_members c
  · constructor
    · intro hPerm
      have hRead := ofValue_object_of_perm_members hPerm.symm
      rw [ofValue_object_members] at hRead
      exact (Except.ok.inj hRead).symm
    · rintro rfl
      exact List.Perm.refl _
  · rw [← map_fst_members] at hKey
    obtain ⟨m, hm, rfl⟩ := List.mem_map.mp hKey
    obtain ⟨s, hText⟩ := exists_text_of_mem_members hm
    exact ⟨s, by rw [ofValue_object_eq_ok_iff.mp hRead m hm, hText]⟩

/-- A code of one level, with a quote and a blank in it, among keys that name levels of the other
scheme. -/
theorem ofValue_written_foreignLevels :
    let c : Code := .uspc "7'05 "
    let others : List (String × Value) := [("sub_class", .absent), ("section", .list [.text "H"])]
    let entries : List (String × Value) :=
      [("section", .list [.text "H"]), ("sub_class", .absent), ("main_class", .text "7'05 "),
        ("scheme", .text "uspc")]
    (∀ m ∈ others, m.1 ∉ c.scheme.keys) ∧ entries.Perm (c.members ++ others) ∧
      ofValue (.object entries) = .ok c ∧
      (∀ key ∈ c.scheme.keys, ∃ s, under key entries = [.text s]) := by
  intro c others entries
  have hOthers : ∀ m ∈ others, m.1 ∉ c.scheme.keys := by
    simp only [others, List.forall_mem_cons]
    decide
  have hPerm : entries.Perm (c.members ++ others) := List.reverse_perm (c.members ++ others)
  obtain ⟨_, _, hRead, _, _, hOnly⟩ := ofValue_written c
  have hEntries := hRead others entries hOthers hPerm
  exact ⟨hOthers, hPerm, hEntries, (hOnly entries hEntries).1⟩

end Code

end PatentFilter

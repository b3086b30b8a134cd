import PatentFilter.Markup.Offsets
import PatentFilter.Proofs.Markup.Continuation
import PatentFilter.Proofs.Markup.Separation

/-!
# Offsets into a document

Every mark of the markup is in ASCII, and no octet of ASCII is part of a longer character. So what
is found among the octets is found among the characters, every cut is made between two characters,
and the reading by offsets comes to the tokens of the document.
-/

namespace PatentFilter.Markup.Offsets

/-! ## Octets of characters -/

theorem octets_append (a b : String) : octets (a ++ b) = octets a ++ octets b := by
  simp [octets, String.toByteArray_append, ByteArray.data_append]

theorem octets_cons (c : Char) (cs : List Char) :
    octets (String.ofList (c :: cs)) = String.utf8EncodeChar c ++ octets (String.ofList cs) := by
  simp [octets, String.toByteArray_ofList, List.utf8Encode]

theorem length_octets (s : String) : (octets s).length = s.utf8ByteSize := by
  simp [octets]

theorem getElem?_octets_eq_some_iff {s : String} {n : Nat} {b : UInt8} :
    (octets s)[n]? = some b ↔
      ∃ h : String.Pos.Raw.mk n < s.rawEndPos, s.getUTF8Byte ⟨n⟩ h = b :=
  List.getElem?_eq_some_iff

theorem isSome_cut?_iff {s : String} {n : Nat} :
    (cut? s n).isSome = true ↔
      n = s.utf8ByteSize ∨ ∃ b, (octets s)[n]? = some b ∧ b.IsUTF8FirstByte := by
  have hValid : (cut? s n).isSome = true ↔ String.Pos.Raw.IsValid s ⟨n⟩ := by
    unfold cut?
    split <;> simp_all
  rw [hValid, String.Pos.Raw.isValid_iff_isUTF8FirstByte]
  apply or_congr
  · exact String.Pos.Raw.ext_iff
  · simp only [getElem?_octets_eq_some_iff]
    constructor
    · rintro ⟨hLt, hFirst⟩
      exact ⟨_, ⟨hLt, rfl⟩, hFirst⟩
    · rintro ⟨_, ⟨hLt, rfl⟩, hFirst⟩
      exact ⟨hLt, hFirst⟩

example : cut? "é>" 1 = none ∧ cut? "é>" 2 = some ("é", ">") ∧ cut? "é>" 4 = none := by
  decide +kernel

theorem toNat_toUInt8 {c : Char} (h : c.utf8Size = 1) : c.toUInt8.toNat = c.toNat := by
  rw [Char.utf8Size_eq_one_iff, UInt32.le_iff_toNat_le] at h
  rw [← Char.toUInt8_val, UInt32.toNat_toUInt8, Nat.mod_eq_of_lt]
  · rfl
  · exact Nat.lt_of_le_of_lt h (by decide)

theorem toUInt8_inj {c d : Char} (hc : c.utf8Size = 1) (hd : d.utf8Size = 1) :
    c.toUInt8 = d.toUInt8 ↔ c = d := by
  rw [← UInt8.toNat_inj, toNat_toUInt8 hc, toNat_toUInt8 hd, Char.toNat_inj]

/-- The octets of a character outside of ASCII are not in ASCII. -/
theorem le_of_mem_utf8EncodeChar {c : Char} {b : UInt8} (hSize : c.utf8Size ≠ 1)
    (h : b ∈ String.utf8EncodeChar c) : 128 ≤ b.toNat := by
  rw [ne_eq, Char.utf8Size_eq_one_iff, UInt32.le_iff_toNat_le] at hSize
  unfold String.utf8EncodeChar at h
  simp only at h
  split at h
  · next hSmall => exact absurd hSmall hSize
  · split at h
    · simp only [List.mem_cons, List.not_mem_nil, or_false] at h
      rcases h with rfl | rfl <;> simp <;> omega
    · split at h
      · simp only [List.mem_cons, List.not_mem_nil, or_false] at h
        rcases h with rfl | rfl | rfl <;> simp <;> omega
      · simp only [List.mem_cons, List.not_mem_nil, or_false] at h
        rcases h with rfl | rfl | rfl | rfl <;> simp <;> omega

theorem toUInt8_notMem_utf8EncodeChar {c d : Char} (hc : c.utf8Size = 1) (hd : d.utf8Size ≠ 1) :
    c.toUInt8 ∉ String.utf8EncodeChar d := by
  intro h
  have hLarge := le_of_mem_utf8EncodeChar hd h
  rw [toNat_toUInt8 hc] at hLarge
  rw [Char.utf8Size_eq_one_iff, UInt32.le_iff_toNat_le] at hc
  have hSmall : c.toNat ≤ 127 := hc
  omega

def Ascii (cs : List Char) : Prop :=
  ∀ c ∈ cs, c.utf8Size = 1

instance (cs : List Char) : Decidable (Ascii cs) :=
  decidable_of_iff ((cs.all fun c => c.utf8Size == 1) = true) (by simp [Ascii])

theorem octets_cons_of_ascii {c : Char} (h : c.utf8Size = 1) (cs : List Char) :
    octets (String.ofList (c :: cs)) = c.toUInt8 :: octets (String.ofList cs) := by
  rw [octets_cons, String.utf8EncodeChar_eq_singleton h]
  rfl

theorem octets_prefix_iff {mark cs : List Char} (h : Ascii mark) :
    octets (String.ofList mark) <+: octets (String.ofList cs) ↔ mark <+: cs := by
  induction mark generalizing cs with
  | nil => simp [octets]
  | cons m mark ih =>
    rw [Ascii, List.forall_mem_cons] at h
    rw [octets_cons_of_ascii h.1]
    cases cs with
    | nil => simp [octets]
    | cons c cs =>
      by_cases hc : c.utf8Size = 1
      · rw [octets_cons_of_ascii hc, List.cons_prefix_cons, List.cons_prefix_cons, ih h.2,
          toUInt8_inj h.1 hc]
      · rw [octets_cons]
        constructor
        · intro hPrefix
          -- the first octet of the mark would be one of the character
          have hNe : String.utf8EncodeChar c ≠ [] := by
            rw [← List.length_pos_iff, String.length_utf8EncodeChar]
            exact c.utf8Size_pos
          obtain ⟨b, bs, hBytes⟩ := List.exists_cons_of_ne_nil hNe
          rw [hBytes, List.cons_append, List.cons_prefix_cons] at hPrefix
          apply absurd _ (toUInt8_notMem_utf8EncodeChar h.1 hc)
          rw [hBytes, hPrefix.1]
          exact List.mem_cons_self
        · intro hPrefix
          obtain ⟨rfl, _⟩ := List.cons_prefix_cons.mp hPrefix
          exact absurd h.1 hc

theorem utf8ByteSize_cons (c : Char) (cs : List Char) :
    (String.ofList (c :: cs)).utf8ByteSize = (String.ofList cs).utf8ByteSize + c.utf8Size := by
  rw [← length_octets, octets_cons, List.length_append, String.length_utf8EncodeChar,
    length_octets, Nat.add_comm]

theorem seek?_append {m : UInt8} {bs : List UInt8} (h : m ∉ bs) (mark rest : List UInt8) :
    seek? (m :: mark) (bs ++ rest) = (seek? (m :: mark) rest).map (· + bs.length) := by
  induction bs with
  | nil => simp
  | cons b bs ih =>
    rw [List.mem_cons, not_or] at h
    have hHere : ¬ (m :: mark).isPrefixOf (b :: (bs ++ rest)) = true := by
      simp [List.isPrefixOf, h.1]
    rw [List.cons_append, seek?, if_neg hHere, ih h.2, Option.map_map]
    rfl

theorem seek?_of_marked {mark bs : List UInt8} (hNe : mark ≠ []) (h : mark <+: bs) :
    seek? mark bs = some 0 := by
  cases bs with
  | nil => exact absurd (List.prefix_nil.mp h) hNe
  | cons b bs => rw [seek?, if_pos (List.isPrefixOf_iff_prefix.mpr h)]

theorem seek?_octets_cons {m : Char} {mark : List Char} (h : Ascii (m :: mark)) {c : Char}
    {cs : List Char} (hNot : ¬ m :: mark <+: c :: cs) :
    seek? (octets (String.ofList (m :: mark))) (octets (String.ofList (c :: cs))) =
      (seek? (octets (String.ofList (m :: mark))) (octets (String.ofList cs))).map
        (· + c.utf8Size) := by
  have hFirst : m.utf8Size = 1 := h m List.mem_cons_self
  by_cases hc : c.utf8Size = 1
  · rw [← octets_prefix_iff h, octets_cons_of_ascii hc] at hNot
    rw [octets_cons_of_ascii hc, seek?, if_neg (by rwa [List.isPrefixOf_iff_prefix]), hc]
  · rw [octets_cons c, octets_cons_of_ascii hFirst mark,
      seek?_append (toUInt8_notMem_utf8EncodeChar hFirst hc), String.length_utf8EncodeChar]

/-- A mark in ASCII is found among the octets where it is found among the characters. -/
theorem seek?_octets {m : Char} {mark : List Char} (h : Ascii (m :: mark)) (cs : List Char) :
    seek? (octets (String.ofList (m :: mark))) (octets (String.ofList cs)) =
      (cutAt? (m :: mark) cs).map fun p => (String.ofList p.1).utf8ByteSize := by
  induction cs with
  | nil => simp [octets, seek?, cutAt?]
  | cons c cs ih =>
    by_cases hPrefix : m :: mark <+: c :: cs
    · have hNe : octets (String.ofList (m :: mark)) ≠ [] := by
        rw [octets_cons_of_ascii (h m List.mem_cons_self)]
        exact List.cons_ne_nil _ _
      rw [seek?_of_marked hNe ((octets_prefix_iff h).mpr hPrefix), cutAt?,
        if_pos (List.isPrefixOf_iff_prefix.mpr hPrefix)]
      rfl
    · have hCut : cutAt? (m :: mark) (c :: cs) =
          (cutAt? (m :: mark) cs).map fun p => (c :: p.1, p.2) := by
        rw [cutAt?, if_neg (by rwa [List.isPrefixOf_iff_prefix])]
      rw [hCut, seek?_octets_cons h hPrefix, ih, Option.map_map, Option.map_map]
      simp only [Function.comp_def, utf8ByteSize_cons]

theorem find?_ofList {mark : String} (h : Ascii mark.toList) (hNe : mark ≠ "") (cs : List Char) :
    find? mark (String.ofList cs) =
      (cutAt? mark.toList cs).map fun p => (String.ofList p.1).utf8ByteSize := by
  cases hMark : mark.toList with
  | nil => exact absurd (String.toList_eq_nil_iff.mp hMark) hNe
  | cons m rest =>
    rw [hMark] at h
    rw [← seek?_octets h, ← hMark, String.ofList_toList, find?]

/-! ## The end of a tag -/

theorem tagEnd?_append {q : Option Char} {bs : List UInt8} (hQuote : ∀ d ∈ q, d.utf8Size = 1)
    (h : ∀ c : Char, c.utf8Size = 1 → c.toUInt8 ∉ bs) (rest : List UInt8) :
    tagEnd? (q.map Char.toUInt8) (bs ++ rest) =
      (tagEnd? (q.map Char.toUInt8) rest).map (· + bs.length) := by
  induction bs with
  | nil => simp
  | cons b bs ih =>
    have hb : ∀ c : Char, c.utf8Size = 1 → b ≠ c.toUInt8 := by
      rintro c hc rfl
      exact h c hc List.mem_cons_self
    have ih := ih fun c hc hMem => h c hc (List.mem_cons_of_mem b hMem)
    cases q with
    | none =>
      have hQuotes : ¬ (b = '"'.toUInt8 ∨ b = '\''.toUInt8) := by
        rw [not_or]
        exact ⟨hb '"' rfl, hb '\'' rfl⟩
      rw [Option.map_none] at ih ⊢
      rw [List.cons_append, tagEnd?, if_neg hQuotes, if_neg (hb '>' rfl), ih, Option.map_map]
      rfl
    | some d =>
      rw [Option.map_some] at ih ⊢
      rw [List.cons_append, tagEnd?, if_neg (hb d (hQuote d rfl)), ih, Option.map_map]
      rfl

theorem cutTag?_cons_of_ne {q : Option Char} {c : Char}
    (hNe : ∀ d : Char, d.utf8Size = 1 → c ≠ d) (hQuote : ∀ d ∈ q, d.utf8Size = 1)
    (cs : List Char) :
    cutTag? q (c :: cs) = (cutTag? q cs).map fun p => (c :: p.1, p.2) := by
  cases q with
  | none =>
    have hQuotes : ¬ (c = '"' ∨ c = '\'') := by
      rw [not_or]
      exact ⟨hNe '"' rfl, hNe '\'' rfl⟩
    rw [cutTag?, if_neg (hNe '>' rfl), if_neg hQuotes]
  | some d => rw [cutTag?, if_neg (hNe d (hQuote d rfl))]

/-- The `>` that ends a tag is found among the octets where it is found among the characters. -/
theorem tagEnd?_octets {q : Option Char} (hQuote : ∀ d ∈ q, d.utf8Size = 1) (cs : List Char) :
    tagEnd? (q.map Char.toUInt8) (octets (String.ofList cs)) =
      (cutTag? q cs).map fun p => (String.ofList p.1).utf8ByteSize := by
  induction cs generalizing q with
  | nil => cases q <;> simp [octets, tagEnd?, cutTag?]
  | cons c cs ih =>
    have step : ∀ q' : Option Char, (∀ d ∈ q', d.utf8Size = 1) →
        (tagEnd? (q'.map Char.toUInt8) (octets (String.ofList cs))).map (· + c.utf8Size) =
          ((cutTag? q' cs).map fun p => (c :: p.1, p.2)).map
            fun p => (String.ofList p.1).utf8ByteSize := by
      intro q' hQuote'
      rw [ih hQuote', Option.map_map, Option.map_map]
      simp only [Function.comp_def, utf8ByteSize_cons]
    by_cases hc : c.utf8Size = 1
    · have hEq : ∀ d : Char, d.utf8Size = 1 → (c.toUInt8 = d.toUInt8 ↔ c = d) :=
        fun d hd => toUInt8_inj hc hd
      rw [octets_cons_of_ascii hc]
      rw [hc] at step
      cases q with
      | none =>
        simp only [Option.map_none, tagEnd?, cutTag?, hEq '"' rfl, hEq '\'' rfl, hEq '>' rfl]
        -- the octets are tested for a quote first, the characters for the end
        by_cases hEnd : c = '>'
        · subst hEnd
          rfl
        · rw [if_neg hEnd, if_neg hEnd]
          split
          · exact step (some c) (by simp [hc])
          · exact step none (by simp)
      | some d =>
        simp only [Option.map_some, tagEnd?, cutTag?, hEq d (hQuote d rfl)]
        split
        · exact step none (by simp)
        · exact step (some d) hQuote
    · have hNe : ∀ d : Char, d.utf8Size = 1 → c ≠ d := by
        rintro d hd rfl
        exact hc hd
      rw [octets_cons, tagEnd?_append hQuote fun d hd => toUInt8_notMem_utf8EncodeChar hd hc,
        String.length_utf8EncodeChar, step q hQuote, cutTag?_cons_of_ne hNe hQuote]

/-! ## Cuts -/

theorem before?_append (a b : List Char) :
    before? (String.ofList (a ++ b)) (String.ofList a).utf8ByteSize = some (String.ofList a) := by
  rw [before?, cut?_eq_some_iff.mpr ⟨String.ofList_append, rfl⟩]
  rfl

theorem after?_append (a b : List Char) :
    after? (String.ofList (a ++ b)) (String.ofList a).utf8ByteSize = some (String.ofList b) :=
  after?_eq_some_iff.mpr ⟨String.ofList a, String.ofList_append, rfl⟩

theorem startsWith_ofList {mark : String} (h : Ascii mark.toList) (cs : List Char) :
    startsWith mark (String.ofList cs) = true ↔ mark.toList <+: cs := by
  rw [← octets_prefix_iff h, String.ofList_toList, startsWith, List.isPrefixOf_iff_prefix]

/-! ## Constructs -/

theorem findChar?_getD (p : Char → Bool) (cs : List Char) :
    (findChar? p cs).getD (String.ofList cs).utf8ByteSize =
      (String.ofList (cs.takeWhile fun c => !p c)).utf8ByteSize := by
  induction cs with
  | nil => rfl
  | cons c cs ih =>
    by_cases hp : p c = true
    · simp [findChar?, hp]
    · rw [List.takeWhile_cons_of_pos (by simp [hp]), utf8ByteSize_cons, utf8ByteSize_cons, ← ih,
        findChar?, if_neg hp]
      cases findChar? p cs <;> rfl

theorem before?_nameEnd (inner : List Char) :
    before? (String.ofList inner) (nameEnd (String.ofList inner)) =
      some (String.ofList (inner.takeWhile fun c => !Text.isBlank c && c != '/')) := by
  have hCut := before?_append (inner.takeWhile fun c => !(Text.isBlank c || c == '/'))
    (inner.dropWhile fun c => !(Text.isBlank c || c == '/'))
  rw [List.takeWhile_append_dropWhile, ← findChar?_getD] at hCut
  rw [nameEnd, String.toList_ofList, hCut]
  simp only [Bool.not_or, bne]

theorem ofTag?_ofList (inner : List Char) :
    ofTag? (String.ofList inner) = some (Token.ofTag inner) := by
  have hStart : startsWith "/" (String.ofList inner) = true ↔ ['/'] <+: inner :=
    startsWith_ofList (by decide) inner
  unfold ofTag?
  by_cases hSlash : ['/'] <+: inner
  · rw [if_pos (hStart.mpr hSlash)]
    obtain ⟨rest, rfl⟩ := hSlash
    have hAfter : after? (String.ofList (['/'] ++ rest)) 1 = some (String.ofList rest) :=
      after?_append ['/'] rest
    rw [hAfter]
    simp [Token.ofTag]
  · rw [if_neg (mt hStart.mp hSlash), before?_nameEnd]
    unfold Token.ofTag
    split
    · next rest => exact absurd ⟨rest, rfl⟩ hSlash
    · simp [String.isEmpty]

/-- How many octets a construct spans with its `<`, given what stands behind the `<` and what
stands behind the construct. -/
def span (body rest : List Char) : Nat :=
  1 + (String.ofList body).utf8ByteSize - (String.ofList rest).utf8ByteSize

theorem span_append (front a mark rest : List Char) :
    span (front ++ (a ++ (mark ++ rest))) rest =
      1 + (String.ofList front).utf8ByteSize + (String.ofList a).utf8ByteSize +
        (String.ofList mark).utf8ByteSize := by
  simp only [span, String.ofList_append, String.utf8ByteSize_append]
  omega

theorem span_of_cutAt? {front mark inner a rest : List Char}
    (h : cutAt? mark inner = some (a, rest)) :
    span (front ++ inner) rest =
      1 + (String.ofList front).utf8ByteSize + (String.ofList a).utf8ByteSize +
        (String.ofList mark).utf8ByteSize := by
  rw [eq_append_of_cutAt? h, span_append]

theorem startsWith_section_iff (body : List Char) :
    startsWith "![CDATA[" (String.ofList body) = true ↔ sectionMark <+: body :=
  startsWith_ofList (by decide) body

theorem startsWith_comment_iff (body : List Char) :
    startsWith "!--" (String.ofList body) = true ↔ commentMark <+: body :=
  startsWith_ofList (by decide) body

theorem construct?_section (inner : List Char) :
    construct? (String.ofList (sectionMark ++ inner)) =
      some ((cutAt? [']', ']', '>'] inner).map fun p =>
        (.text (String.ofList p.1), span (sectionMark ++ inner) p.2)) := by
  have hStart : startsWith "![CDATA[" (String.ofList (sectionMark ++ inner)) = true :=
    (startsWith_section_iff _).mpr ⟨inner, rfl⟩
  have hAfter : after? (String.ofList (sectionMark ++ inner)) 8 = some (String.ofList inner) :=
    after?_append sectionMark inner
  have hFind : find? "]]>" (String.ofList inner) = (cutAt? [']', ']', '>'] inner).map _ :=
    find?_ofList (by decide) (by decide) inner
  rw [construct?, if_pos hStart, hAfter, Option.bind_eq_bind, Option.bind_some, hFind]
  cases hCut : cutAt? [']', ']', '>'] inner with
  | none => rfl
  | some p =>
    obtain ⟨content, rest⟩ := p
    have hBefore := before?_append content ([']', ']', '>'] ++ rest)
    rw [← eq_append_of_cutAt? hCut] at hBefore
    simp only [Option.map_some, span_of_cutAt? hCut, hBefore]
    rfl

theorem construct?_comment (inner : List Char) :
    construct? (String.ofList (commentMark ++ inner)) =
      some ((cutAt? ['-', '-', '>'] inner).map fun p =>
        (.skipped, span (commentMark ++ inner) p.2)) := by
  have hSection : ¬ startsWith "![CDATA[" (String.ofList (commentMark ++ inner)) = true := by
    rw [startsWith_section_iff]
    simp [sectionMark, commentMark]
  have hStart : startsWith "!--" (String.ofList (commentMark ++ inner)) = true :=
    (startsWith_comment_iff _).mpr ⟨inner, rfl⟩
  have hAfter : after? (String.ofList (commentMark ++ inner)) 3 = some (String.ofList inner) :=
    after?_append commentMark inner
  have hFind : find? "-->" (String.ofList inner) = (cutAt? ['-', '-', '>'] inner).map _ :=
    find?_ofList (by decide) (by decide) inner
  rw [construct?, if_neg hSection, if_pos hStart, hAfter, Option.bind_eq_bind, Option.bind_some,
    hFind]
  cases hCut : cutAt? ['-', '-', '>'] inner with
  | none => rfl
  | some p =>
    obtain ⟨content, rest⟩ := p
    simp only [Option.map_some, span_of_cutAt? hCut]
    rfl

theorem startsWith_head_iff (body : List Char) :
    (startsWith "!" (String.ofList body) || startsWith "?" (String.ofList body)) = true ↔
      body.head? = some '!' ∨ body.head? = some '?' := by
  have hMark : ∀ c : Char, [c] <+: body ↔ body.head? = some c := by
    intro c
    cases body with
    | nil => simp
    | cons d body => simp [List.cons_prefix_cons, eq_comm]
  rw [Bool.or_eq_true, startsWith_ofList (by decide), startsWith_ofList (by decide), ← hMark,
    ← hMark]
  rfl

theorem construct?_declaration {body : List Char} (hSection : ¬ sectionMark <+: body)
    (hComment : ¬ commentMark <+: body) (hHead : body.head? = some '!' ∨ body.head? = some '?') :
    construct? (String.ofList body) =
      some ((cutAt? ['>'] body).map fun p => (.skipped, span body p.2)) := by
  have hFind : find? ">" (String.ofList body) = (cutAt? ['>'] body).map _ :=
    find?_ofList (by decide) (by decide) body
  rw [construct?, if_neg (mt (startsWith_section_iff body).mp hSection),
    if_neg (mt (startsWith_comment_iff body).mp hComment),
    if_pos ((startsWith_head_iff body).mpr hHead), hFind]
  cases hCut : cutAt? ['>'] body with
  | none => rfl
  | some p =>
    obtain ⟨content, rest⟩ := p
    have hSpan := span_append [] content ['>'] rest
    rw [List.nil_append, ← eq_append_of_cutAt? hCut] at hSpan
    simp only [Option.map_some, hSpan]
    rfl

theorem construct?_tag {body : List Char}
    (hHead : ¬ (body.head? = some '!' ∨ body.head? = some '?')) :
    construct? (String.ofList body) =
      some ((cutTag? none body).map fun p => (Token.ofTag p.1, span body p.2)) := by
  have hSection : ¬ sectionMark <+: body := Token.not_prefix_of_head hHead rfl
  have hComment : ¬ commentMark <+: body := Token.not_prefix_of_head hHead rfl
  have hEnd := tagEnd?_octets (q := none) (by simp) body
  rw [Option.map_none] at hEnd
  rw [construct?, if_neg (mt (startsWith_section_iff body).mp hSection),
    if_neg (mt (startsWith_comment_iff body).mp hComment),
    if_neg (mt (startsWith_head_iff body).mp hHead), hEnd]
  cases hCut : cutTag? none body with
  | none => rfl
  | some p =>
    obtain ⟨inner, rest⟩ := p
    have hBefore := before?_append inner ('>' :: rest)
    have hSpan := span_append [] inner ['>'] rest
    rw [← eq_append_of_cutTag? hCut] at hBefore
    rw [List.nil_append, List.cons_append, List.nil_append, ← eq_append_of_cutTag? hCut] at hSpan
    simp only [Option.map_some, hSpan, hBefore, Option.bind_eq_bind, Option.bind_some,
      ofTag?_ofList]
    rfl

theorem construct?_ofList (body : List Char) :
    construct? (String.ofList body) =
      some ((Token.read? body).map fun p => (p.1, span body p.2)) := by
  unfold Token.read?
  split
  · next hSection =>
    obtain ⟨inner, rfl⟩ := List.isPrefixOf_iff_prefix.mp hSection
    rw [construct?_section, List.drop_left, Option.map_map]
    rfl
  · next hSection =>
    split
    · next hComment =>
      obtain ⟨inner, rfl⟩ := List.isPrefixOf_iff_prefix.mp hComment
      rw [construct?_comment, List.drop_left, Option.map_map]
      rfl
    · next hComment =>
      rw [List.isPrefixOf_iff_prefix] at hSection hComment
      split
      · next hHead =>
        rw [construct?_declaration hSection hComment hHead, Option.map_map]
        rfl
      · next hHead =>
        rw [construct?_tag hHead, Option.map_map]
        rfl

theorem next?_append (body : String) :
    next? ("<" ++ body) =
      some ((Token.read? body.toList).map fun p => (p.1, span body.toList p.2)) := by
  have hAfter : after? ("<" ++ body) 1 = some body :=
    after?_eq_some_iff.mpr ⟨"<", rfl, rfl⟩
  have hRead := construct?_ofList body.toList
  rw [String.ofList_toList] at hRead
  rw [next?, hAfter, Option.bind_eq_bind, Option.bind_some, hRead]

theorem next?_ofList (body : List Char) :
    next? (String.ofList ('<' :: body)) =
      some ((Token.read? body).map fun p => (p.1, span body p.2)) := by
  have hNext := next?_append (String.ofList body)
  rw [String.toList_ofList] at hNext
  rw [String.ofList_cons]
  exact hNext

theorem span_eq_of_append (whole rest : List Char) :
    span (whole ++ rest) rest = (String.ofList ('<' :: whole)).utf8ByteSize := by
  have hLt : ('<' : Char).utf8Size = 1 := rfl
  simp only [span, utf8ByteSize_cons, String.ofList_append, String.utf8ByteSize_append, hLt]
  omega

theorem cut?_span {body rest : List Char} {t : Token} (h : Token.read? body = some (t, rest)) :
    ∃ inner, body = inner ++ '>' :: rest ∧
      cut? (String.ofList ('<' :: body)) (span body rest) =
        some (String.ofList ('<' :: (inner ++ ['>'])), String.ofList rest) := by
  obtain ⟨inner, rfl⟩ := Token.exists_eq_append_of_read? h
  refine ⟨inner, rfl, ?_⟩
  rw [List.append_cons, span_eq_of_append, cut?_eq_some_iff, ← String.ofList_append]
  exact ⟨rfl, rfl⟩

/-! ## Turns -/

theorem find?_lt (cs : List Char) :
    find? "<" (String.ofList cs) =
      (cutAt? ['<'] cs).map fun p => (String.ofList p.1).utf8ByteSize :=
  find?_ofList (by decide) (by decide) cs

theorem find?_lt_of_notMem {front : List Char} (h : '<' ∉ front) :
    find? "<" (String.ofList front) = none := by
  rw [find?_lt, Option.map_eq_none_iff, Option.eq_none_iff_forall_ne_some]
  rintro ⟨a, b⟩ hCut
  rw [eq_append_of_cutAt? hCut] at h
  simp at h

theorem find?_lt_append {front : List Char} (h : '<' ∉ front) (body : List Char) :
    find? "<" (String.ofList (front ++ '<' :: body)) = some (String.ofList front).utf8ByteSize := by
  have hCut : cutAt? ['<'] (front ++ '<' :: ([] ++ body)) = some (front, body) :=
    cutAt?_of_notMem h body
  rw [List.nil_append] at hCut
  rw [find?_lt, hCut]
  rfl

theorem exists_turn?_eq (cs : List Char) :
    ∃ next, turn? (String.ofList cs) = some ((readStep cs).1, next) ∧
      (readStep cs).2 = (next.getD "").toList := by
  rcases notMem_or_eq_append cs with hMem | ⟨front, body, rfl, hFront⟩
  · refine ⟨none, ?_, ?_⟩
    · rw [turn?, find?_lt_of_notMem hMem, readStep_of_notMem hMem]
    · rw [readStep_of_notMem hMem]
      rfl
  · rw [readStep_append hFront, turn?, find?_lt_append hFront]
    simp only [before?_append, after?_append, next?_ofList, Option.bind_eq_bind, Option.bind_some]
    cases hRead : Token.read? body with
    | none => exact ⟨none, rfl, rfl⟩
    | some p =>
      obtain ⟨t, rest⟩ := p
      obtain ⟨inner, _, hCut⟩ := cut?_span hRead
      refine ⟨some (String.ofList rest), ?_, by simp⟩
      simp only [Option.map_some, after?, hCut]
      rfl

theorem scan?_eq_tokens (document : String) :
    scan? document = some (tokens document.toList) := by
  have hTurn : ∀ s : String, ∃ next, turn? s = some ((readStep s.toList).1, next) ∧
      (readStep s.toList).2 = (next.getD "").toList := by
    intro s
    have h := exists_turn?_eq s.toList
    rwa [String.ofList_toList] at h
  fun_induction scan? document with
  | case1 => simp [tokens_nil]
  | case2 rest hNe hNone =>
    obtain ⟨next, hSome, _⟩ := hTurn rest
    rw [hNone] at hSome
    cases hSome
  | case3 rest hNe ts hEnd =>
    obtain ⟨next, hSome, hRest⟩ := hTurn rest
    rw [hEnd] at hSome
    cases hSome
    rw [tokens_of_ne_nil (by simpa using hNe), hRest]
    simp [tokens_nil]
  | case4 rest hNe ts next hOn ih =>
    obtain ⟨next', hSome, hRest⟩ := hTurn rest
    rw [hOn] at hSome
    cases hSome
    have hTokens : tokens rest.toList = _ := tokens_of_ne_nil (by simpa using hNe)
    rw [ih, hTokens, hRest]
    rfl

/-- No cut that the reading of a document makes is beyond the end or inside a character, and the
`>` found among the octets of a tag is the one found among its characters. -/
theorem scan?_cuts (document : String) :
    scan? document = some (tokens document.toList) ∧
    (∀ paths, (scan? document).map (gather paths) = some (collect paths document)) ∧
    (∀ body, next? ("<" ++ body) =
      some ((Token.read? body.toList).map fun p => (p.1, span body.toList p.2))) ∧
    (∀ s n, (cut? s n).isSome = true ↔
      n = s.utf8ByteSize ∨ ∃ b, (octets s)[n]? = some b ∧ b.IsUTF8FirstByte) ∧
    ∀ body, tagEnd? none (octets body) =
      (cutTag? none body.toList).map fun p => (String.ofList p.1).utf8ByteSize := by
  refine ⟨scan?_eq_tokens document, ?_, next?_append, fun s n => isSome_cut?_iff, ?_⟩
  · intro paths
    rw [scan?_eq_tokens, collect_eq_gather]
    rfl
  · intro body
    have hEnd := tagEnd?_octets (q := none) (by simp) body.toList
    rwa [Option.map_none, String.ofList_toList] at hEnd

end PatentFilter.Markup.Offsets

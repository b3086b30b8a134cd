import PatentFilter.Markup.Token

/-!
# Reading by offsets

The same reading on the octets of a text in UTF-8. A place is an offset into the octets, marks are
searched for among the octets, and a text is cut at an offset only where a character ends or
starts: a cut anywhere else gives nothing, and then the reading gives nothing either.
-/

namespace PatentFilter.Markup.Offsets

def octets (s : String) : List UInt8 :=
  s.toByteArray.data.toList

/-- The texts before and after an offset that is neither beyond the end nor inside a character. -/
def cut? (s : String) (n : Nat) : Option (String × String) :=
  if h : String.Pos.Raw.IsValid s ⟨n⟩ then
    some ((s.sliceTo (s.pos ⟨n⟩ h)).copy, (s.sliceFrom (s.pos ⟨n⟩ h)).copy)
  else none

theorem cut?_eq_some_iff {s a b : String} {n : Nat} :
    cut? s n = some (a, b) ↔ s = a ++ b ∧ n = a.utf8ByteSize := by
  constructor
  · intro h
    unfold cut? at h
    split at h
    · next hValid =>
      obtain ⟨rfl, rfl⟩ := Prod.mk.inj (Option.some.inj h)
      constructor
      · exact (s.pos ⟨n⟩ hValid).splits.eq_append
      · simp
    · cases h
  · rintro ⟨rfl, rfl⟩
    have hValid : String.Pos.Raw.IsValid (a ++ b) ⟨a.utf8ByteSize⟩ :=
      String.Pos.Raw.isValid_iff_exists_append.mpr ⟨a, b, rfl, rfl⟩
    have hSplits : ((a ++ b).pos ⟨a.utf8ByteSize⟩ hValid).Splits a b := ⟨rfl, rfl⟩
    obtain ⟨hBefore, hAfter⟩ := ((a ++ b).pos _ hValid).splits.eq hSplits
    rw [cut?, dif_pos hValid, hBefore, hAfter]

def before? (s : String) (n : Nat) : Option String :=
  (cut? s n).map (·.1)

def after? (s : String) (n : Nat) : Option String :=
  (cut? s n).map (·.2)

theorem after?_eq_some_iff {s b : String} {n : Nat} :
    after? s n = some b ↔ ∃ a, s = a ++ b ∧ n = a.utf8ByteSize := by
  simp [after?, cut?_eq_some_iff]

/-- Where a mark first occurs. -/
def seek? (mark : List UInt8) : List UInt8 → Option Nat
  | [] => none
  | b :: bs => if mark.isPrefixOf (b :: bs) then some 0 else (seek? mark bs).map (· + 1)

def find? (mark s : String) : Option Nat :=
  seek? (octets mark) (octets s)

def startsWith (mark s : String) : Bool :=
  (octets mark).isPrefixOf (octets s)

/-- Where the `>` that ends a tag is, one octet at a time, the quote being the one still open. -/
def tagEnd? : Option UInt8 → List UInt8 → Option Nat
  | _, [] => none
  | some q, b :: bs => (tagEnd? (if b = q then none else some q) bs).map (· + 1)
  | none, b :: bs =>
    if b = '"'.toUInt8 ∨ b = '\''.toUInt8 then (tagEnd? (some b) bs).map (· + 1)
    else if b = '>'.toUInt8 then some 0
    else (tagEnd? none bs).map (· + 1)

/-- Where the first character of a kind starts. -/
def findChar? (p : Char → Bool) : List Char → Option Nat
  | [] => none
  | c :: cs => if p c then some 0 else (findChar? p cs).map (· + c.utf8Size)

/-- Where the name of a start tag ends, given what stands between `<` and `>`. -/
def nameEnd (inner : String) : Nat :=
  (findChar? (fun c => Text.isBlank c || c == '/') inner.toList).getD inner.utf8ByteSize

def ofTag? (inner : String) : Option Token :=
  if startsWith "/" inner then do
    let rest ← after? inner 1
    let name := Text.firstWord rest.toList
    return if name.isEmpty then .skipped else .closing (String.ofList name)
  else do
    let name ← before? inner (nameEnd inner)
    return if name.isEmpty || inner.toList.getLast? == some '/' then .skipped else .opening name

/-- The construct behind a `<` and the number of octets that it spans with the `<`, if it comes to
its end. -/
def construct? (body : String) : Option (Option (Token × Nat)) :=
  if startsWith "![CDATA[" body then do
    let inner ← after? body 8
    match find? "]]>" inner with
    | none => return none
    | some n =>
      let content ← before? inner n
      return some (.text content, 1 + 8 + n + 3)
  else if startsWith "!--" body then do
    let inner ← after? body 3
    return (find? "-->" inner).map fun n => (.skipped, 1 + 3 + n + 3)
  else if startsWith "!" body || startsWith "?" body then
    some ((find? ">" body).map fun n => (.skipped, 1 + n + 1))
  else
    match tagEnd? none (octets body) with
    | none => some none
    | some n => do
      let inner ← before? body n
      let t ← ofTag? inner
      return some (t, 1 + n + 1)

/-- The construct at the front of an input that starts with `<`. -/
def next? (input : String) : Option (Option (Token × Nat)) := do
  let body ← after? input 1
  construct? body

theorem two_le_of_next? {input : String} {t : Token} {n : Nat}
    (h : next? input = some (some (t, n))) : 2 ≤ n := by
  obtain ⟨body, _, h⟩ := Option.bind_eq_some_iff.mp h
  unfold construct? at h
  split at h
  · obtain ⟨inner, _, h⟩ := Option.bind_eq_some_iff.mp h
    split at h
    · cases h
    · obtain ⟨_, _, h⟩ := Option.bind_eq_some_iff.mp h
      cases h
      omega
  · split at h
    · obtain ⟨inner, _, h⟩ := Option.bind_eq_some_iff.mp h
      obtain ⟨_, _, h⟩ := Option.map_eq_some_iff.mp (Option.some.inj h)
      cases h
      omega
    · split at h
      · obtain ⟨_, _, h⟩ := Option.map_eq_some_iff.mp (Option.some.inj h)
        cases h
        omega
      · split at h
        · cases h
        · obtain ⟨_, _, h⟩ := Option.bind_eq_some_iff.mp h
          obtain ⟨_, _, h⟩ := Option.bind_eq_some_iff.mp h
          cases h
          omega

/-- One turn of the scan: the tokens up to and including the next construct, and the input after
it unless the scan ends here. -/
def turn? (rest : String) : Option (List Token × Option String) :=
  match find? "<" rest with
  | none => some ([.text rest], none)
  | some n => do
    let front ← before? rest n
    let input ← after? rest n
    match ← next? input with
    | none => return ([.text front, .text input], none)
    | some (t, span) =>
      let rest ← after? input span
      return ([.text front, t], some rest)

theorem lt_of_turn? {rest next : String} {ts : List Token}
    (h : turn? rest = some (ts, some next)) : next.utf8ByteSize < rest.utf8ByteSize := by
  unfold turn? at h
  split at h
  · cases h
  · obtain ⟨front, _, h⟩ := Option.bind_eq_some_iff.mp h
    obtain ⟨input, hInput, h⟩ := Option.bind_eq_some_iff.mp h
    obtain ⟨read, hNext, h⟩ := Option.bind_eq_some_iff.mp h
    split at h
    · cases h
    · obtain ⟨_, hAfter, h⟩ := Option.bind_eq_some_iff.mp h
      cases h
      obtain ⟨before, rfl, _⟩ := after?_eq_some_iff.mp hInput
      obtain ⟨whole, rfl, rfl⟩ := after?_eq_some_iff.mp hAfter
      have hSpan := two_le_of_next? hNext
      simp only [String.utf8ByteSize_append]
      omega

/-- The tokens of a document, read turn by turn; nothing if a cut fails. -/
def scan? (rest : String) : Option (List Token) :=
  if rest = "" then some []
  else
    match _h : turn? rest with
    | none => none
    | some (ts, none) => some ts
    | some (ts, some next) => (scan? next).map (ts ++ ·)
termination_by rest.utf8ByteSize
decreasing_by exact lt_of_turn? _h

end PatentFilter.Markup.Offsets

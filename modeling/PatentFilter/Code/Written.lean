import PatentFilter.Code.Basic

/-!
# Codes as values

A code is written as a map with its scheme under `scheme` and each level under its name, or as a
list of the scheme and the levels in order. When a map is read, keys that are no level of the
scheme are passed over.
-/

namespace PatentFilter

def schemeKey : String := "scheme"

namespace Code

def toValue (c : Code) : Value :=
  .map ((.text schemeKey, .text (Variant.tag c.scheme)) ::
    c.fields.map fun f => (.text f.1.name, .text f.2))

/-- The place of the level that a key names. A key may also be the number of the level,
written without a minus sign. -/
def levelAt? (levels : List Level) : Value → Except ValueFault (Option Nat)
  | .text s => .ok (levels.findIdx? fun l => l.name == s)
  | .nat n => .ok (if n < levels.length then some n else none)
  | k => .error (.wrongType k.found "field identifier")

/-- The contents read so far, level by level, after further entries. -/
def readEntries (levels : List Level) :
    List (Option String) → List (Value × Value) → Except ValueFault (List (Option String))
  | got, [] => .ok got
  | got, (k, v) :: rest => do
    match ← levelAt? levels k with
    | none => readEntries levels got rest
    | some i =>
      match got[i]?.join, levels[i]? with
      | some _, some l => .error (.repeatedField l.name)
      | _, _ =>
        let s ← v.asText
        readEntries levels (got.set i (some s)) rest

/-- All levels must have contents; the first without is reported. -/
def complete : List (Level × Option String) → Except ValueFault (List String)
  | [] => .ok []
  | (_, some s) :: rest => return s :: (← complete rest)
  | (l, none) :: _ => .error (.missingField l.name)

def describeScheme : Scheme → String
  | .cpc => "struct CpcCode with 4 elements"
  | .uspc => "struct UspcCode with 1 element"

def countLevels : Scheme → String
  | .cpc => "4 elements in sequence"
  | .uspc => "1 element in sequence"

def ofPartList (s : Scheme) (parts : List String) : Except ValueFault Code :=
  match ofParts? s parts with
  | some c => .ok c
  | none => .error (.wrongLength parts.length (describeScheme s))

def ofEntries (s : Scheme) (entries : List (Value × Value)) : Except ValueFault Code := do
  let got ← readEntries s.levels (s.levels.map fun _ => none) entries
  let parts ← complete (s.levels.zip got)
  ofPartList s parts

def ofItems (s : Scheme) (items : List Value) : Except ValueFault Code := do
  let parts ← (items.take s.levels.length).mapM Value.asText
  if s.levels.length < items.length then .error (.wrongLength items.length (countLevels s))
  else ofPartList s parts

/-- The scheme among the entries, and the entries without it. -/
def splitScheme : Option Scheme → List (Value × Value) →
    Except ValueFault (Scheme × List (Value × Value))
  | none, [] => .error (.missingField schemeKey)
  | some s, [] => .ok (s, [])
  | found, (k, v) :: rest =>
    if k.isText schemeKey then
      match found with
      | some _ => .error (.repeatedField schemeKey)
      | none => do
        let s ← Variant.ofName v
        splitScheme (some s) rest
    else do
      let (s, others) ← splitScheme found rest
      return (s, (k, v) :: others)

def ofValue : Value → Except ValueFault Code
  | .list [] => .error (.missingField schemeKey)
  | .list (tag :: items) => do
    let s ← Variant.ofName tag
    ofItems s items
  | .map entries => do
    let (s, others) ← splitScheme none entries
    ofEntries s others
  | v => .error (.wrongType v.found "internally tagged enum ClassificationCode")

end Code

end PatentFilter

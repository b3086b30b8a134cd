import PatentFilter.Code.Written
import PatentFilter.Config.Basic
import PatentFilter.Files
import PatentFilter.Yaml.Decode
import PatentFilter.Yaml.Document

/-!
# Reading configurations

A configuration is a mapping. Keys that are not known are passed over with all that they hold. A
wanted code is held back until its scheme is known, so its levels have to be texts by their own
meaning; the other texts are taken as they were written.
-/

namespace PatentFilter

inductive ConfigFault where
  | unreadable (fault : ReadFault)
  | malformed
  | misfit (m : Yaml.Misfit)
  | objection (o : ConfigObjection)

namespace ConfigFault

/-- What was wrong before the wording of the configuration's own messages. -/
def cause? : ConfigFault → Option String
  | unreadable f => some f.message
  | malformed => some "the text is not well formed"
  | misfit m => some m.message
  | objection _ => none

def message : ConfigFault → String
  | unreadable f => "failed to read config file: " ++ f.message
  | malformed => "failed to parse YAML: the text is not well formed"
  | misfit m => "failed to parse YAML: " ++ m.message
  | objection (.unsupportedVersion v) => "unsupported config version: " ++ v
  | objection .nothingWanted =>
    "validation error: wanted must list at least one classification"
  | objection .blankLevel => "validation error: logging.level must not be empty"

end ConfigFault

open Yaml (Node Spot Decode)
open Yaml.Decode

/-- A field is met once at most. -/
def onlyOnce {α : Type} (name : String) (before : Option α) : Decode Unit :=
  if before.isSome then fail (.repeatedField name) else return

def needed {α : Type} (name : String) : Option α → Decode α
  | some a => return a
  | none => fail (.missingField name)

namespace Logging

structure Draft where
  level : Option String := none
  asJson : Option Bool := none

def readEntry (s : Spot) (d : Draft) (e : Node × Node) : Decode Draft := do
  let key ← writtenText "field identifier" s e.1
  let there := s.atKey e.1
  if key = "level" then
    onlyOnce key d.level
    return { d with level := some (← writtenText "a string" there e.2) }
  else if key = "json" then
    onlyOnce key d.asJson
    return { d with asJson := some (← bool there e.2) }
  else return d

def Draft.finish (d : Draft) : Logging :=
  let standard : Logging := {}
  ⟨d.level.getD standard.level, d.asJson.getD standard.asJson⟩

def decode (s : Spot) (n : Node) : Decode Logging := within s do
  let (inside, entries) ← entries "struct LoggingConfig" s n
  return (← entries.foldlM (readEntry inside) {}).finish

end Logging

namespace Code

def expected : String := "internally tagged enum ClassificationCode"

/-- What a key of a code may be. -/
def expectedKey : String := "a type tag `" ++ schemeKey ++ "` or any other value"

def readScheme (s : Spot) (n : Node) : Decode Scheme := within s do
  lift (Variant.ofTag (← writtenText "variant identifier" s n))

/-- The scheme if it has been met, and the other entries, the latest first. -/
def readEntry (s : Spot) (d : Option Scheme × List (Value × Value)) (e : Node × Node) :
    Decode (Option Scheme × List (Value × Value)) := do
  let key ← openValue s.depth s.trail expectedKey e.1
  let there := s.atKey e.1
  if key.isText schemeKey then
    onlyOnce schemeKey d.1
    return (some (← readScheme there e.2), d.2)
  else
    return (d.1, (key, ← openValue there.depth there.trail "any value" e.2) :: d.2)

/-- The scheme of a code with its levels still to be read, as entries or as items. -/
def readOpen (s : Spot) (n : Node) : Decode (Except ValueFault Code) := within s do
  match ← target n with
  | .mapping entries tag => do
    if tag.any Yaml.Tag.namesVariant then fail (.wrongType .variant expected)
    let inside ← enter s
    let (scheme, others) ← entries.foldlM (readEntry inside) (none, [])
    return ofEntries (← needed schemeKey scheme) others.reverse
  | .sequence items tag => do
    if tag.any Yaml.Tag.namesVariant then fail (.wrongType .variant expected)
    let inside ← enter s
    match items with
    | [] => fail (.missingField schemeKey)
    | first :: rest => do
      let scheme ← readScheme (inside.atItem 0) first
      let values ← rest.zipIdx.mapM fun (n, i) =>
        openValue inside.depth (inside.atItem (i + 1)).trail "any value" n
      return ofItems scheme values
  | .scalar text style tag =>
    if tag.any Yaml.Tag.namesVariant then fail (.wrongType .variant expected)
    else wrongNode expected (.scalar text style tag)
  | n => wrongNode expected n

def decode (s : Spot) (n : Node) : Decode Code := do
  lift (← readOpen s n)

end Code

namespace Config

structure Draft where
  version : Option String := none
  name : Option (Option String) := none
  wanted : Option (List Code) := none
  logging : Option Logging := none

def readWanted (s : Spot) (n : Node) : Decode (List Code) := within s do
  let (inside, items) ← items s n
  items.zipIdx.mapM fun (n, i) => Code.decode (inside.atItem i) n

def readEntry (s : Spot) (d : Draft) (e : Node × Node) : Decode Draft := do
  let key ← writtenText "field identifier" s e.1
  let there := s.atKey e.1
  if key = "version" then
    onlyOnce key d.version
    return { d with version := some (← writtenText "a string" there e.2) }
  else if key = "name" then
    onlyOnce key d.name
    return { d with name := some (← optionalText "a string" there e.2) }
  else if key = "wanted" then
    onlyOnce key d.wanted
    return { d with wanted := some (← readWanted there e.2) }
  else if key = "logging" then
    onlyOnce key d.logging
    return { d with logging := some (← Logging.decode there e.2) }
  else return d

def Draft.finish (d : Draft) : Decode Config := do
  let version ← needed "version" d.version
  let wanted ← needed "wanted" d.wanted
  return ⟨version, d.name.join, wanted, d.logging.getD {}⟩

/-- The configuration of a document. Without a root there are no fields. -/
def decode (root : Option Node) : Decode Config := within .root do
  let (inside, entries) ← match root with
    | some n => entries "struct PatclassConfig" .root n
    | none => pure (.root, [])
  (← entries.foldlM (readEntry inside) {}).finish

def ofText (text : String) : Except ConfigFault Config :=
  match Yaml.document? text with
  | none => .error .malformed
  | some d =>
    match d.decode (decode d.root) with
    | .error m => .error (.misfit m)
    | .ok c =>
      match c.objection? with
      | some o => .error (.objection o)
      | none => .ok c

/-- A configuration that is read stands in a well-formed document and passes all checks. -/
theorem ofText_eq_ok_iff {text : String} {c : Config} :
    ofText text = .ok c ↔ ∃ d, Yaml.document? text = some d ∧
      d.decode (decode d.root) = .ok c ∧
      c.version ∈ supportedVersions ∧ c.wanted ≠ [] ∧ Text.allBlank c.logging.level = false := by
  simp only [← objection?_eq_none_iff, ofText]
  cases Yaml.document? text with
  | none => simp
  | some d =>
    simp only [Option.some.injEq, exists_eq_left']
    cases d.decode (decode d.root) with
    | error m => simp
    | ok found =>
      cases hObjection : found.objection? with
      | some o =>
        simp only [hObjection, reduceCtorEq, false_iff, Except.ok.injEq, not_and]
        rintro rfl hNone
        cases hObjection.symm.trans hNone
      | none =>
        simp only [hObjection, Except.ok.injEq, iff_self_and]
        rintro rfl
        exact hObjection

/-- The configuration of what reading a file gave. -/
def ofReading : Except ReadFault String → Except ConfigFault Config
  | .error f => .error (.unreadable f)
  | .ok text => ofText text

/-- The configuration in the file at a path, by any way of reading texts. -/
def ofFile (read : String → Except ReadFault String) (path : String) :
    Except ConfigFault Config :=
  ofReading (read path)

end Config

end PatentFilter

import PatentFilter.Code.Basic
import PatentFilter.Markup.Path
import PatentFilter.Text.Blank

/-!
# Queries

A wanted code becomes a query: below an anchor shared by its scheme, each place where the code may
be recorded is tested for a value that begins with the text of the code. A code with a blank level
has no query, for its text would match too much; one with a quote has none, for its text could not
be written between quotes.
-/

namespace PatentFilter

/-- Of the two places where a scheme's codes are recorded, the document's own field or the copy
in the citation data. -/
inductive Location where
  | primary
  | secondary
  deriving DecidableEq, Repr

instance : Variant Location where
  all := [.primary, .secondary]
  tag
    | .primary => "primary"
    | .secondary => "secondary"

/-- A place below the anchor: a field element and the child that holds its text. -/
structure Place where
  location : Location
  element : String
  textElement : String
  deriving DecidableEq, Repr

/-- Where the codes of a scheme are recorded. -/
structure Layout where
  anchor : Markup.Path
  places : List Place
  deriving DecidableEq, Repr

def Scheme.layout : Scheme → Layout
  | .cpc =>
    ⟨⟨["PATDOC", "SDOBI", "B500", "B510"]⟩,
      [⟨.primary, "B511", "PDAT"⟩, ⟨.secondary, "B516", "PDAT"⟩]⟩
  | .uspc =>
    ⟨⟨["PATDOC", "SDOBI", "B500", "B520"]⟩,
      [⟨.primary, "B521", "PDAT"⟩, ⟨.secondary, "B522", "PDAT"⟩]⟩

/-- A place together with the text that a value there must begin with. -/
structure FieldTest where
  place : Place
  stem : String
  deriving DecidableEq, Repr

namespace FieldTest

def accepts (t : FieldTest) (value : String) : Bool :=
  t.stem.toList.isPrefixOf value.toList

theorem accepts_iff {t : FieldTest} {value : String} :
    t.accepts value = true ↔ t.stem.toList <+: value.toList := by
  simp [accepts]

end FieldTest

structure Query where
  code : Code
  anchor : Markup.Path
  tests : List FieldTest
  deriving DecidableEq, Repr

/-- Why a code has no query. -/
inductive CodeFault where
  | blankField (code : Code) (level : Level)
  | quoteInField (scheme : Scheme) (level : Level) (value : String)
  deriving DecidableEq, Repr

namespace CodeFault

def scheme : CodeFault → Scheme
  | blankField c _ => c.scheme
  | quoteInField s _ _ => s

def level : CodeFault → Level
  | blankField _ l => l
  | quoteInField _ l _ => l

def message : CodeFault → String
  | blankField c l =>
    c.scheme.name ++ " code '" ++ c.text ++ "' has an empty " ++ l.name ++ " field"
  | quoteInField s l v =>
    s.name ++ " field " ++ l.name ++ " contains a quote character: " ++ Text.quoted v

end CodeFault

def Code.fieldFault? (c : Code) (field : Level × String) : Option CodeFault :=
  if Text.allBlank field.2 then some (.blankField c field.1)
  else if field.2.toList.contains '\'' then some (.quoteInField c.scheme field.1 field.2)
  else none

theorem Code.fieldFault?_eq_none_iff {c : Code} {field : Level × String} :
    c.fieldFault? field = none ↔
      Text.allBlank field.2 = false ∧ '\'' ∉ field.2.toList := by
  unfold fieldFault?
  split
  · simp_all
  · split <;> simp_all

def Code.fault? (c : Code) : Option CodeFault :=
  c.fields.findSome? c.fieldFault?

theorem Code.fault?_eq_none_iff {c : Code} :
    c.fault? = none ↔
      ∀ field ∈ c.fields, Text.allBlank field.2 = false ∧ '\'' ∉ field.2.toList := by
  simp [fault?, List.findSome?_eq_none_iff, fieldFault?_eq_none_iff]

namespace Query

def ofSound (c : Code) : Query :=
  let layout := c.scheme.layout
  ⟨c, layout.anchor, layout.places.map fun p => ⟨p, c.text⟩⟩

def ofCode (c : Code) : Except CodeFault Query :=
  match c.fault? with
  | some fault => .error fault
  | none => .ok (ofSound c)

theorem ofCode_eq_ok_iff {c : Code} {q : Query} :
    ofCode c = .ok q ↔ c.fault? = none ∧ q = ofSound c := by
  unfold ofCode
  cases c.fault? <;> simp [eq_comm]

theorem ofCode_eq_error_iff {c : Code} {f : CodeFault} :
    ofCode c = .error f ↔ c.fault? = some f := by
  unfold ofCode
  cases c.fault? <;> simp

theorem exists_ofCode_eq_ok_iff {c : Code} : (∃ q, ofCode c = .ok q) ↔ c.fault? = none := by
  simp only [ofCode_eq_ok_iff, exists_and_left, exists_eq, and_true]

def scheme (q : Query) : Scheme := q.code.scheme

/-- The text that all values begin with, empty for a query without tests. -/
def stem (q : Query) : String :=
  match q.tests.head? with
  | some t => t.stem
  | none => ""

def valuePath (q : Query) (t : FieldTest) : Markup.Path :=
  q.anchor.extend [t.place.element, t.place.textElement]

end Query

end PatentFilter

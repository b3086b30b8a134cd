import PatentFilter.Decimal.Notation
import PatentFilter.Text.Quoted

/-!
# Values of a data format

What a reader of structured text hands on before anything is known about its type: a tree of
absent values, truth values, numbers, texts, lists and maps. A map keeps its entries in the order
in which they are visited.
-/

namespace PatentFilter

inductive Value where
  | absent
  | bool (b : Bool)
  | nat (n : Nat)
  /-- An integer with a minus sign, which zero can have too. -/
  | minus (n : Nat)
  | float (x : Float)
  | text (s : String)
  | list (items : List Value)
  | map (entries : List (Value × Value))
  deriving Inhabited

/-- What a message says about a value of the wrong kind. -/
inductive Found where
  | absent
  | bool (b : Bool)
  | nat (n : Nat)
  | minus (n : Nat)
  /-- An integer beyond sixty-four bits. -/
  | wideInt (n : Int)
  | float (x : Float)
  | text (s : String)
  | list
  | map
  /-- A value that carries a variant name of its own. -/
  | variant

def Value.isText (s : String) : Value → Bool
  | .text t => t == s
  | _ => false

theorem Value.isText_iff {s : String} {v : Value} : v.isText s = true ↔ v = .text s := by
  cases v <;> simp [Value.isText]

def Value.found : Value → Found
  | .absent => .absent
  | .bool b => .bool b
  | .nat n => .nat n
  | .minus n => .minus n
  | .float x => .float x
  | .text s => .text s
  | .list _ => .list
  | .map _ => .map

/-- What data formats differ in when they tell of a value. -/
structure Wording where
  absent : String
  floats : Decimal.Format

namespace Wording

def json : Wording := ⟨"null", .compact⟩

def yaml : Wording := ⟨"unit value", .positional⟩

end Wording

def Found.describe (w : Wording) : Found → String
  | .absent => w.absent
  | .bool b => "boolean `" ++ (if b then "true" else "false") ++ "`"
  | .nat n => "integer `" ++ toString n ++ "`"
  | .minus n => "integer `" ++ toString (-(n : Int)) ++ "`"
  | .wideInt n => "integer `" ++ toString n ++ (if n < 0 then "` as i128" else "` as u128")
  | .float x => "floating point `" ++ w.floats.write x ++ "`"
  | .text s => "string " ++ Text.quoted s
  | .list => "sequence"
  | .map => "map"
  | .variant => "enum"

end PatentFilter

import PatentFilter.Value.Fault
import PatentFilter.Yaml.FlowScalar
import PatentFilter.Yaml.Node

/-!
# What scalars mean

A plain scalar may be a word for the absent value, a truth value or a number; every other scalar is
text. A standard tag decides the type whatever the style, and then the text has to fit it.
-/

namespace PatentFilter.Yaml

def isAbsentWord (s : String) : Bool :=
  ["~", "null", "Null", "NULL"].contains s

def boolWord? (s : String) : Option Bool :=
  if ["true", "True", "TRUE"].contains s then some true
  else if ["false", "False", "FALSE"].contains s then some false
  else none

def isSign (c : Char) : Bool := c == '+' || c == '-'

def dropSign : List Char → List Char
  | c :: cs => if isSign c then cs else c :: cs
  | [] => []

/-- Digits after a leading zero are text, not a number. -/
def isPadded (cs : List Char) : Bool :=
  match dropSign cs with
  | '0' :: d :: ds => (d :: ds).all Char.isDigit
  | _ => false

def naturalIn? (base : Nat) (cs : List Char) : Option Nat := do
  let ds ← cs.mapM hexDigit?
  if ds.isEmpty || ds.any (base ≤ ·) then none
  else some (ds.foldl (fun n d => base * n + d) 0)

/-- A number without its sign, in one of the four bases. -/
def natural? : List Char → Option Nat
  | '0' :: 'x' :: ds => naturalIn? 16 ds
  | '0' :: 'o' :: ds => naturalIn? 8 ds
  | '0' :: 'b' :: ds => naturalIn? 2 ds
  | ds => naturalIn? 10 ds

/-- Integers up to sixty-four bits are told from those up to twice as many. -/
def foundNat? (n : Nat) : Option Found :=
  if n < Nat.pow 2 64 then some (.nat n)
  else if n < Nat.pow 2 128 then some (.wideInt n)
  else none

/-- A minus sign takes one of the bits. -/
def foundMinus? (n : Nat) : Option Found :=
  if n ≤ Nat.pow 2 63 then some (.minus n)
  else if n ≤ Nat.pow 2 127 then some (.wideInt (-n))
  else none

def foundInteger? (cs : List Char) : Option Found :=
  if isPadded cs then none
  else match cs with
    | '-' :: ds => (natural? ds).bind foundMinus?
    | '+' :: ds => (natural? ds).bind foundNat?
    | ds => (natural? ds).bind foundNat?

def infinity : Float := 1.0 / 0.0

def isInfinityWord (cs : List Char) : Bool :=
  [".inf", ".Inf", ".INF"].contains (String.ofList cs)

def isUndefinedWord (cs : List Char) : Bool :=
  [".nan", ".NaN", ".NAN"].contains (String.ofList cs)

def unsignedFloat? (cs : List Char) : Option Float :=
  if isInfinityWord cs then some infinity
  else (Decimal.read? cs).filter Float.isFinite

/-- A decimal that does not overflow, or one of the words for the other values. -/
def float? : List Char → Option Float
  | '+' :: cs => if (cs.head?.map isSign).getD false then none else unsignedFloat? cs
  | '-' :: cs =>
    if isInfinityWord cs then some (-infinity)
    else if (cs.head?.map isSign).getD false then none
    else (unsignedFloat? cs).map fun x => -x
  | cs => if isUndefinedWord cs then some (0.0 / 0.0) else unsignedFloat? cs

def plainInteger? (s : String) : Option Found :=
  foundInteger? s.toList

def plainFloat? (s : String) : Option Found :=
  if isPadded s.toList then none else (float? s.toList).map Found.float

def plainMeaning (s : String) : Found :=
  if s.isEmpty || isAbsentWord s then .absent
  else ((boolWord? s).map Found.bool <|> plainInteger? s <|> plainFloat? s).getD (.text s)

def orWrongValue (s expected : String) : Option Found → Except ValueFault Found
  | some f => .ok f
  | none => .error (.wrongValue (.text s) expected)

def scalarMeaning (s : String) (style : Style) (tag : Option Tag) : Except ValueFault Found :=
  if tag == some (Tag.standard "bool") then
    orWrongValue s "a boolean" ((boolWord? s).map Found.bool)
  else if tag == some (Tag.standard "int") then orWrongValue s "an integer" (plainInteger? s)
  else if tag == some (Tag.standard "float") then
    orWrongValue s "a float" ((float? s.toList).map Found.float)
  else if tag == some (Tag.standard "null") then
    orWrongValue s "null" (if isAbsentWord s then some .absent else none)
  else if style == .plain && tag.all Tag.isLocal then .ok (plainMeaning s)
  else .ok (.text s)

def Node.meaning : Node → Except ValueFault Found
  | .scalar s style tag => scalarMeaning s style tag
  | .sequence .. => .ok .list
  | .mapping .. => .ok .map
  | .reference _ => .error .tooManyReferences

end PatentFilter.Yaml

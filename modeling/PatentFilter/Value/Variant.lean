import PatentFilter.Value.Fault

/-!
# Named variants

A type with finitely many named values, written as the bare name. A map whose only key is the
name and whose value is absent is the same thing in long form.
-/

namespace PatentFilter

class Variant (α : Type) where
  all : List α
  tag : α → String

namespace Variant

variable {α : Type} [Variant α]

def ofTag? (s : String) : Option α :=
  all.find? fun a => tag a == s

def ofTag (s : String) : Except ValueFault α :=
  match ofTag? s with
  | some a => .ok a
  | none => .error (.unknownVariant s ((all : List α).map tag))

def ofName : Value → Except ValueFault α
  | .text s => ofTag s
  | v => .error (.wrongType v.found "variant identifier")

def ofValue : Value → Except ValueFault α
  | .text s => ofTag s
  | .map [(k, v)] => do
    let a ← ofName k
    match v with
    | .absent => .ok a
    | v => .error (.wrongType v.found "unit")
  | .map _ => .error (.wrongValue .map "map with a single key")
  | v => .error (.wrongType v.found "string or map")

end Variant

end PatentFilter

import PatentFilter.Value.Basic

/-!
# Why a value does not fit a type
-/

namespace PatentFilter

inductive ValueFault where
  | wrongType (found : Found) (expected : String)
  | wrongValue (found : Found) (expected : String)
  | wrongLength (length : Nat) (expected : String)
  | missingField (name : String)
  | repeatedField (name : String)
  | unknownVariant (name : String) (known : List String)
  /-- A variant name where the value's type is still open. -/
  | variantInside
  | tooDeep
  | tooManyReferences

def ValueFault.message (w : Wording) : ValueFault → String
  | .wrongType f e => "invalid type: " ++ f.describe w ++ ", expected " ++ e
  | .wrongValue f e => "invalid value: " ++ f.describe w ++ ", expected " ++ e
  | .wrongLength n e => "invalid length " ++ toString n ++ ", expected " ++ e
  | .missingField name => "missing field `" ++ name ++ "`"
  | .repeatedField name => "duplicate field `" ++ name ++ "`"
  | .unknownVariant name known =>
    "unknown variant `" ++ name ++ "`, expected " ++
      " or ".intercalate (known.map fun k => "`" ++ k ++ "`")
  | .variantInside => "untagged and internally tagged enums do not support enum input"
  | .tooDeep => "recursion limit exceeded"
  | .tooManyReferences => "repetition limit exceeded"

def Value.asText : Value → Except ValueFault String
  | .text s => .ok s
  | v => .error (.wrongType v.found "a string")

theorem Value.asText_eq_ok_iff {v : Value} {s : String} : v.asText = .ok s ↔ v = .text s := by
  cases v <;> simp [Value.asText]

def Value.asList : Value → Except ValueFault (List Value)
  | .list items => .ok items
  | v => .error (.wrongType v.found "a sequence")

end PatentFilter

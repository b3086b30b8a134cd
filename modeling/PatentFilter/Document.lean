import PatentFilter.Value.Variant

/-!
# Kinds of documents
-/

namespace PatentFilter

/-- The kind is told in logs and decides nothing. -/
inductive DocumentKind where
  | grant
  | application
  deriving DecidableEq, Repr

instance : Variant DocumentKind where
  all := [.grant, .application]
  tag
    | .grant => "grant"
    | .application => "application"

end PatentFilter

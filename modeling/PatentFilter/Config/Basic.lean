import PatentFilter.Code.Basic
import PatentFilter.Text.Blank

/-!
# Configurations

A configuration names the wanted codes and says how much is logged. The contents of the codes are
not checked here: a code that no query can be built for shows when the codes are compiled.
-/

namespace PatentFilter

structure Logging where
  level : String := "info"
  asJson : Bool := false
  deriving DecidableEq, Repr

structure Config where
  version : String
  name : Option String
  wanted : List Code
  logging : Logging
  deriving DecidableEq, Repr

/-- Why a well-formed configuration is not accepted. -/
inductive ConfigObjection where
  | unsupportedVersion (version : String)
  | nothingWanted
  | blankLevel
  deriving DecidableEq, Repr

namespace Config

def supportedVersions : List String := ["1.0", "1"]

/-- The first objection to a configuration. -/
def objection? (c : Config) : Option ConfigObjection :=
  if c.version ∉ supportedVersions then some (.unsupportedVersion c.version)
  else if c.wanted = [] then some .nothingWanted
  else if Text.allBlank c.logging.level then some .blankLevel
  else none

theorem objection?_eq_none_iff {c : Config} :
    c.objection? = none ↔
      c.version ∈ supportedVersions ∧ c.wanted ≠ [] ∧ Text.allBlank c.logging.level = false := by
  unfold objection?
  repeat' split
  all_goals simp_all

end Config

end PatentFilter

import PatentFilter.Config.Reading
import PatentFilter.Screening.Basic

/-!
# The command line

The first argument names a configuration, the others name documents. Each document gives one line
with its path, whether it matched and why. A document that cannot be read ends the run; the lines
before it stand. Files are read one at a time, each when its turn comes, in whatever monad reading
takes place in.
-/

namespace PatentFilter

/-- Any way of reading the text at a path. -/
abbrev Reader (m : Type → Type) := String → m (Except ReadFault String)

/-- An error with what caused it, the nearest cause first. -/
structure Report where
  message : String
  causes : List String
  deriving DecidableEq, Repr

namespace Report

/-- The lines after the first one are indented. -/
def indented (margin text : String) : String :=
  String.ofList (text.toList.flatMap fun c => if c == '\n' then '\n' :: margin.toList else [c])

def numbered (i : Nat) (cause : String) : String :=
  "\n" ++ String.ofList (List.replicate (5 - (toString i).length) ' ') ++ toString i ++ ": " ++
    indented "       " cause

def causeText : List String → String
  | [] => ""
  | [cause] => "\n\nCaused by:\n    " ++ indented "    " cause
  | causes => "\n\nCaused by:" ++ String.join (causes.mapIdx numbered)

def text (r : Report) : String :=
  "Error: " ++ r.message ++ causeText r.causes ++ "\n"

def usage : Report := ⟨"usage: patclass <config.yaml> <document>...", []⟩

def ofConfigFault (path : String) (f : ConfigFault) : Report :=
  ⟨"loading " ++ path, f.message :: f.cause?.toList⟩

def ofReadFault (path : String) (f : ReadFault) : Report :=
  ⟨"reading " ++ path, [f.message]⟩

def ofScreeningFault (f : ScreeningFault) : Report :=
  ⟨f.message, f.cause?.toList.map CodeFault.message⟩

end Report

/-- What a run prints, and the report that it ends with if it fails. -/
structure Outcome where
  lines : List String
  report : Option Report
  deriving DecidableEq, Repr

namespace Outcome

def stdout (o : Outcome) : String :=
  String.join (o.lines.map (· ++ "\n"))

def exitCode (o : Outcome) : Nat :=
  if o.report.isSome then 1 else 0

end Outcome

namespace CommandLine

def flag (isMatch : Bool) : String :=
  if isMatch then "match" else "no-match"

def documentLine (path : String) (isMatch : Bool) (e : Explanation) : String :=
  path ++ "\t" ++ flag isMatch ++ "\t" ++ e.text

section

variable {m : Type → Type} [Monad m]

/-- Reads, binds and decides the documents one after the other with the same screening. -/
def screenAll (read : Reader m) : Screening → List String → m Outcome
  | _, [] => return ⟨[], none⟩
  | s, path :: paths => do
    match ← read path with
    | .error f => return ⟨[], some (.ofReadFault path f)⟩
    | .ok text =>
      let (bound, _) := s.bind text .grant
      match bound.decideBound with
      | (_, .error f, _, _) => return ⟨[], some (.ofScreeningFault f)⟩
      | (decided, .ok isMatch, _, _) =>
        let rest ← screenAll read decided paths
        return ⟨documentLine path isMatch decided.explain :: rest.lines, rest.report⟩

def screen (read : Reader m) (c : Config) (documents : List String) : m Outcome :=
  match (Screening.ofWanted c.wanted).setUp with
  | (_, .error f, _) => return ⟨[], some (.ofScreeningFault f)⟩
  | (s, .ok (), _) => screenAll read s documents

def execute (read : Reader m) : List String → m Outcome
  | [] => return ⟨[], some .usage⟩
  | path :: documents => do
    match Config.ofReading (← read path) with
    | .error f => return ⟨[], some (.ofConfigFault path f)⟩
    | .ok c => screen read c documents

end

/-- A run on files that are held as values. -/
def run (read : String → Except ReadFault String) (args : List String) : Outcome :=
  Id.run (execute (fun path => pure (read path)) args)

end CommandLine

end PatentFilter

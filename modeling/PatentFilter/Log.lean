import PatentFilter.Document
import PatentFilter.Query.Basic

/-!
# Log entries

What happened while queries were built and documents were decided, in order. An entry is an event
or the start of a span that encloses the entries after it.
-/

namespace PatentFilter

inductive LogEntry where
  | queryBuilt (scheme : Scheme) (query : String)
  | setCompiled (wanted queries paths : Nat)
  | setUp (wanted queries : Nat)
  | setupFailed (fault : CodeFault)
  | documentBound (kind : DocumentKind) (bytes : Nat)
  | boundDecision (kind : DocumentKind)
  | freeDecision (kind : DocumentKind)
  | documentMatched (code : Code) (location : Location) (value : String)
  | documentUnmatched (queries : Nat)
  deriving DecidableEq, Repr

abbrev Log := List LogEntry

inductive Severity where
  | debug
  | info
  | warn
  deriving DecidableEq, Repr

def Severity.name : Severity → String
  | .debug => "DEBUG"
  | .info => "INFO"
  | .warn => "WARN"

namespace LogEntry

def name : LogEntry → String
  | queryBuilt .. => "query_built"
  | setCompiled .. => "pattern_set_compiled"
  | setUp .. => "setup_success"
  | setupFailed .. => "setup_failure"
  | documentBound .. => "document_bound"
  | boundDecision .. => "corpus_match.is_match"
  | freeDecision .. => "corpus_match.match_document"
  | documentMatched .. => "document_matched"
  | documentUnmatched .. => "document_not_matched"

def isSpan : LogEntry → Bool
  | boundDecision .. => true
  | freeDecision .. => true
  | _ => false

def severity : LogEntry → Severity
  | queryBuilt .. => .info
  | setCompiled .. => .info
  | setUp .. => .info
  | setupFailed .. => .warn
  | _ => .debug

def fields : LogEntry → List (String × String)
  | queryBuilt s q => [("scheme", s.name), ("query", q)]
  | setCompiled w q p =>
    [("wanted", toString w), ("queries", toString q), ("field_paths", toString p)]
  | setUp w q => [("wanted", toString w), ("queries", toString q)]
  | setupFailed f => [("error", f.message)]
  | documentBound k n => [("kind", Variant.tag k), ("bytes", toString n)]
  | boundDecision k => [("kind", Variant.tag k)]
  | freeDecision k => [("kind", Variant.tag k)]
  | documentMatched c l v => [("code", c.text), ("location", Variant.tag l), ("value", v)]
  | documentUnmatched q => [("queries", toString q)]

end LogEntry

end PatentFilter

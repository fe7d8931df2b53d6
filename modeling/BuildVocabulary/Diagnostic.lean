/-!
# Diagnostics

A diagnostic is a message about how a schema is written, with a severity. Diagnostics of one load
are kept in the order in which they were made.
-/

namespace BuildVocabulary

/-- How badly a diagnostic affects the vocabulary. -/
inductive Severity where
  /-- The vocabulary is likely wrong where this was reported. -/
  | error
  /-- The vocabulary is still meaningful. -/
  | warning
  deriving DecidableEq, Repr

def Severity.label : Severity → String
  | .error => "error"
  | .warning => "warning"

structure Diagnostic where
  severity : Severity
  message : String
  deriving DecidableEq, Repr

def Diagnostic.text (d : Diagnostic) : String := d.severity.label ++ ": " ++ d.message

/-- Diagnostics in the order in which they were made. -/
abbrev Diagnostics := List Diagnostic

namespace Diagnostics

def countOf (ds : Diagnostics) (s : Severity) : Nat := ds.countP fun d => d.severity = s

def errorCount (ds : Diagnostics) : Nat := ds.countOf .error

def warningCount (ds : Diagnostics) : Nat := ds.countOf .warning

def hasErrors (ds : Diagnostics) : Bool := 0 < ds.errorCount

end Diagnostics

end BuildVocabulary

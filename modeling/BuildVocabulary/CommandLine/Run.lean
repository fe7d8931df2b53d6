import BuildVocabulary.Catalog
import BuildVocabulary.CommandLine.Arguments
import BuildVocabulary.Encoding
import BuildVocabulary.Json.Printer
import BuildVocabulary.Validation

/-!
# Running commands

A command prints lines and may fail with a message. What it prints is a function of the files it
reads.

* `Command.run`: what a command prints, and whether it fails;
* `Command.paths`, `Command.listedPaths`: the files that a command reads;
* `runArguments`: the same from arguments, with the exit code.
-/

namespace BuildVocabulary

/-- What a command prints, and why it fails if it does. -/
structure Report where
  lines : List String := []
  failure : Option String := none
  deriving DecidableEq, Repr

namespace Report

def failed (message : String) : Report := { failure := some message }

end Report

/-- The diagnostics of a file, one a line. -/
def diagnosticLines (path : String) (ds : Diagnostics) : List String :=
  ds.map fun d => s!"{path}: {d.text}"

namespace Command

/-! ## Checking files -/

/-- Whether diagnostics let a check fail. -/
def isFailure (denyWarnings : Bool) (ds : Diagnostics) : Bool :=
  ds.hasErrors || (denyWarnings && 0 < ds.warningCount)

/-- The lines about a file, and whether its check fails. -/
def checkPath (files : Files) (denyWarnings : Bool) (path : String) : List String × Bool :=
  match loadPath files path with
  | .error e => ([s!"{path}: fatal: {e.message}"], true)
  | .ok o =>
    let lines := diagnosticLines path o.diagnostics
    if isFailure denyWarnings o.diagnostics then (lines, true)
    else
      let entities := o.model.entityCount
      let warnings := o.diagnostics.warningCount
      (lines ++ [s!"{path}: ok ({entities} entities, {warnings} warnings)"], false)

/-- Checks files one by one. -/
def runCheck (files : Files) (inputs : List String) (denyWarnings : Bool) : Report :=
  let results := inputs.map (checkPath files denyWarnings)
  let failures := results.countP Prod.snd
  let total := inputs.length
  { lines := results.flatMap Prod.fst
    failure := if failures = 0 then none else some s!"{failures} of {total} schema(s) failed" }

/-! ## Printing a model -/

/-- A loaded document as printed. -/
def dumped (o : Outcome) : Json :=
  .object [("model", o.model.encode), ("diagnostics", o.diagnostics.encode)]

/-- Prints the model of a file and its diagnostics. -/
def runDump (files : Files) (input : String) (compact : Bool) : Report :=
  match loadPath files input with
  | .error e => .failed s!"failed to load {input}: {e.message}"
  | .ok o => { lines := [if compact then Json.compact (dumped o) else Json.pretty (dumped o)] }

/-! ## Composing a catalog -/

def summary (o : Composition) : String :=
  let m := o.model
  s!"{o.files.length} schemas composed: {m.properties.size} properties, {m.items.size} items, " ++
    s!"{m.targets.size} targets, {o.errorCount} errors, {o.warningCount} warnings"

def compositionLines (path : String) (o : Composition) : List String :=
  o.files.flatMap (fun f => diagnosticLines f.path f.diagnostics) ++
    o.model.problems.map (fun p => s!"{path}: composed model: {p.message}") ++ [summary o]

/-- Composes the files that a catalog lists; they are relative to its directory. -/
def runCatalog (files : Files) (path : String) : Report :=
  match Catalog.readPath files path with
  | .error e => .failed s!"failed to read catalog {path}: {e.message}"
  | .ok c =>
    match c.load files (Path.parent path) with
    | .error e => .failed e.message
    | .ok o =>
      { lines := compositionLines path o
        failure := if c.accepts o then none else some "catalog check failed" }

/-! ## Any command -/

def run (files : Files) : Command → Report
  | .check inputs denyWarnings => runCheck files inputs denyWarnings
  | .dump input compact => runDump files input compact
  | .catalog path => runCatalog files path

def paths : Command → List String
  | .check inputs _ => inputs
  | .dump input _ => [input]
  | .catalog path => [path]

/-- The files that a catalog lists, if the command names one. -/
def listedPaths (files : Files) : Command → List String
  | .catalog path =>
    match Catalog.readPath files path with
    | .ok c => c.paths (Path.parent path)
    | .error _ => []
  | _ => []

end Command

/-! ## Exit codes -/

/-- How a run ends: its exit code and what it prints. -/
structure Ending where
  exit : Nat
  output : String
  errors : String
  deriving DecidableEq, Repr

def errorLine (message : String) : String := s!"error: {message}\n"

def UsageError.ending : UsageError → Ending
  | .noArguments => ⟨2, "", usage ++ "\n"⟩
  | e => ⟨2, "", errorLine e.message⟩

def Report.ending (r : Report) : Ending :=
  let output := String.join (r.lines.map (· ++ "\n"))
  match r.failure with
  | some message => ⟨1, output, errorLine message⟩
  | none => ⟨0, output, ""⟩

/-- Runs the command that arguments make up. -/
def runArguments (files : Files) (arguments : List String) : Ending :=
  match Command.ofArguments arguments with
  | .ok c => (c.run files).ending
  | .error e => e.ending

end BuildVocabulary

/-!
# Arguments

A command line names a command and the files that it works on. Options may stand between them, and
everything after `--` is a path. `Command.ofArguments` reads the arguments from left to right.

Requests for help or for the version are left out: `help`, `--help`, `-h`, `--version` and `-V` are
refused like any other word or option that is not known.
-/

namespace BuildVocabulary

/-- What to do. -/
inductive Command where
  /-- Load files and report on each. -/
  | check (inputs : List String) (denyWarnings : Bool)
  /-- Print the model of a file. -/
  | dump (input : String) (compact : Bool)
  /-- Compose the files that a catalog lists. -/
  | catalog (path : String)
  deriving DecidableEq, Repr

/-- Why arguments are no command line. -/
inductive UsageError where
  /-- There are no arguments that say anything. -/
  | noArguments
  | missingCommand
  | unknownCommand (word : String)
  | unexpected (argument : String)
  | unexpectedValue (option value : String)
  | repeated (option : String)
  | missingPath (placeholder : String)
  | emptyPath (placeholder : String)
  deriving DecidableEq, Repr

def usage : String := "Usage: schema-check [OPTIONS] <COMMAND>"

def UsageError.message : UsageError → String
  | .noArguments => usage
  | .missingCommand => "'schema-check' requires a subcommand but one was not provided"
  | .unknownCommand word => s!"unrecognized subcommand '{word}'"
  | .unexpected argument => s!"unexpected argument '{argument}' found"
  | .unexpectedValue option value =>
    s!"unexpected value '{value}' for '{option}' found; no more were expected"
  | .repeated option => s!"the argument '{option}' cannot be used multiple times"
  | .missingPath placeholder =>
    s!"the following required arguments were not provided:\n  {placeholder}"
  | .emptyPath placeholder => s!"a value is required for '{placeholder}' but none was supplied"

inductive Verb where
  | check
  | dump
  | catalog
  deriving DecidableEq, Repr

namespace Verb

def ofName? (name : String) : Option Verb :=
  [("check", check), ("dump", dump), ("catalog", catalog)].lookup name

/-- The option of a command, if it has one. -/
def option? : Verb → Option String
  | check => some "--deny-warnings"
  | dump => some "--compact"
  | catalog => none

/-- The paths of a command in words. -/
def placeholder : Verb → String
  | check => "<INPUTS>..."
  | dump => "<INPUT>"
  | catalog => "<CATALOG>"

def takesMany (v : Verb) : Bool := v = check

end Verb

structure Given where
  /-- The command, if it has been named. -/
  verb : Option Verb := none
  /-- Whether progress notes are asked for, of which there are none. -/
  verbose : Bool := false
  option : Bool := false
  /-- The paths, in reverse order. -/
  paths : List String := []

namespace Given

def verboseOption : String := "--verbose"

/-- Makes sure that no path is empty. Paths are judged where an option that is known follows them,
and at the end. -/
def judgePaths (g : Given) : Except UsageError Given :=
  match g.verb with
  | some v => if g.paths.contains "" then .error (.emptyPath v.placeholder) else .ok g
  | none => .ok g

def setVerbose (g : Given) : Except UsageError Given := do
  let g ← g.judgePaths
  if g.verbose then .error (.repeated verboseOption) else .ok { g with verbose := true }

def setOption (g : Given) (name : String) : Except UsageError Given := do
  let g ← g.judgePaths
  if g.option then .error (.repeated name) else .ok { g with option := true }

/-- Notes the letters after a single dash. -/
def addLetters (g : Given) : List Char → Except UsageError Given
  | [] => .ok g
  | c :: cs =>
    if c = 'v' then g.setVerbose.bind (·.addLetters cs)
    else .error (.unexpected (String.ofList ['-', c]))

/-- Notes an option that begins with two dashes. -/
def addLong (g : Given) (argument : String) : Except UsageError Given :=
  let (name, value) := argument.toList.span (· != '=')
  let name := String.ofList name
  if name ≠ verboseOption ∧ g.verb.bind Verb.option? ≠ some name then .error (.unexpected name)
  else if !value.isEmpty then .error (.unexpectedValue name (String.ofList (value.drop 1)))
  else if name = verboseOption then g.setVerbose
  else g.setOption name

def addOption (g : Given) (argument : String) : Except UsageError Given :=
  match argument.toList with
  | '-' :: '-' :: _ => g.addLong argument
  | cs => g.addLetters (cs.drop 1)

def addPath (g : Given) (path : String) : Except UsageError Given :=
  if g.paths.isEmpty || g.verb.any Verb.takesMany then .ok { g with paths := path :: g.paths }
  else .error (.unexpected path)

end Given

/-- Whether an argument is an option; a dash alone is a path. -/
def isOption (argument : String) : Bool :=
  match argument.toList with
  | '-' :: _ :: _ => true
  | _ => false

/-- The arguments that follow the name of a command. `pathsOnly` says that `--` came before. -/
def givenTo (g : Given) (pathsOnly : Bool) : List String → Except UsageError Given
  | [] => g.judgePaths
  | a :: as =>
    if pathsOnly || !isOption a then do
      let g ← g.addPath a
      givenTo g pathsOnly as
    else if a = "--" then givenTo g true as
    else do
      let g ← g.addOption a
      givenTo g pathsOnly as

namespace Command

/-- The command that a verb makes of what is given to it. -/
def ofGiven (v : Verb) (g : Given) : Except UsageError Command :=
  match v, g.paths.reverse with
  | v, [] => .error (.missingPath v.placeholder)
  | .check, paths => .ok (.check paths g.option)
  | .dump, path :: _ => .ok (.dump path g.option)
  | .catalog, path :: _ => .ok (.catalog path)

def missing (g : Given) : UsageError := if g.verbose then .missingCommand else .noArguments

/-- The error where a command should be named after `--`. -/
def misplaced (word : String) : UsageError :=
  if (Verb.ofName? word).isSome || word = "help" then .unexpected word else .unknownCommand word

/-- The command whose name is still to come. -/
def ofArgumentsFrom (g : Given) : List String → Except UsageError Command
  | [] => .error (missing g)
  | a :: as =>
    if a = "--" then .error (as.head?.elim (missing g) misplaced)
    else if isOption a then do
      let g ← g.addOption a
      ofArgumentsFrom g as
    else
      match Verb.ofName? a with
      | some v => do
        let g ← givenTo { verb := some v } false as
        ofGiven v g
      | none => .error (.unknownCommand a)

/-- The command that arguments make up. -/
def ofArguments (arguments : List String) : Except UsageError Command :=
  ofArgumentsFrom {} arguments

end Command

end BuildVocabulary

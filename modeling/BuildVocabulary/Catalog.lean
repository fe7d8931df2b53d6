import BuildVocabulary.Files.Path
import BuildVocabulary.Merge
import BuildVocabulary.Schema.Load
import BuildVocabulary.Yaml.Document
import BuildVocabulary.Yaml.Printer

/-!
# Catalogs

A catalog lists schema files, whose models are composed in order.

* `Catalog.ofNode?`, `Catalog.read?`: the catalog that a configuration document describes;
* `Catalog.render`, `Catalog.writePath`: a catalog as a text that reads as the same catalog;
* `Catalog.load`: the composition of the listed files;
* `Catalog.accepts`: the judgement on a composition.
-/

namespace BuildVocabulary

open Yaml (Node)

/-- Schema files with the way to compose them. -/
structure Catalog where
  version : String
  /-- Paths of the files, in the order of composition. -/
  schemas : List String
  merge : Strategy := .union
  /-- Whether warnings count as failures. -/
  denyWarnings : Bool := false
  deriving DecidableEq, Repr

namespace Catalog

/-! ## Reading -/

/-- The values that a key has in a mapping. Every key has to be a scalar. -/
def valuesOf? (key : String) (entries : List (Node × Node)) : Option (List Node) := do
  let named ← entries.mapM fun (k, v) => k.text?.map fun name => (name, v)
  pure ((named.filter (·.1 == key)).map Prod.snd)

/-- The value of a key, which stands at most once. -/
def valueOf? (key : String) (entries : List (Node × Node)) : Option (Option Node) := do
  match ← valuesOf? key entries with
  | [] => some none
  | [v] => some (some v)
  | _ => none

/-- A list of texts; a missing value is the empty list. -/
def textsOf? : Node → Option (List String)
  | .sequence items => items.mapM Node.text?
  | .scalar true "" => some []
  | _ => none

/-- The truth values, which stand plain. -/
def truthOf? : Node → Option Bool
  | .scalar true text =>
    if ["true", "True", "TRUE"].contains text then some true
    else if ["false", "False", "FALSE"].contains text then some false
    else none
  | _ => none

def strategyOf? (v : Node) : Option Strategy := v.text?.bind Strategy.ofLabel?

/-- The catalog that a document describes. Other keys than those of a catalog are skipped. -/
def ofNode? : Node → Option Catalog
  | .mapping entries => do
    let version ← (← valueOf? "version" entries).bind Node.text?
    let schemas ← (← valueOf? "schemas" entries).bind textsOf?
    let merge ← match ← valueOf? "merge" entries with
      | some v => strategyOf? v
      | none => some .union
    let denyWarnings ← match ← valueOf? "deny_warnings" entries with
      | some v => truthOf? v
      | none => some false
    pure { version, schemas, merge, denyWarnings }
  | _ => none

def read? (text : String) : Option Catalog := (Yaml.read text).bind ofNode?

def readPath (files : Files) (path : String) : Except LoadError Catalog :=
  match files path with
  | .ok bytes =>
    match (String.fromUTF8? ⟨bytes.toArray⟩).bind read? with
    | some c => .ok c
    | none => .error .yaml
  | .error .isDirectory => .error (.yamlFile .isDirectory)
  | .error fault => .error (.file fault)

/-! ## Writing -/

def renderSchemas (schemas : List String) : String :=
  if schemas.isEmpty then "schemas: []\n"
  else "schemas:\n" ++ String.join (schemas.map fun s => "- " ++ Yaml.render s)

/-- A catalog as text, one key after the other. -/
def render (c : Catalog) : String :=
  "version: " ++ Yaml.render c.version ++ renderSchemas c.schemas ++ "merge: " ++ c.merge.label ++
    "\ndeny_warnings: " ++ (if c.denyWarnings then "true" else "false") ++ "\n"

/-- The files after a catalog has been saved. -/
def writePath (files : Files) (path : String) (c : Catalog) : Files :=
  files.write path c.render.toUTF8.data.toList

end Catalog

/-! ## Composition -/

structure FileDiagnostics where
  path : String
  diagnostics : Diagnostics
  deriving DecidableEq

structure Composition where
  model : Model
  files : List FileDiagnostics
  deriving DecidableEq

namespace Composition

def diagnostics (c : Composition) : Diagnostics := c.files.flatMap (·.diagnostics)

def errorCount (c : Composition) : Nat := c.diagnostics.errorCount

def warningCount (c : Composition) : Nat := c.diagnostics.warningCount

def ofOutcomes (s : Strategy) (outcomes : List (String × Outcome)) : Composition where
  model := Model.compose s (outcomes.map (·.2.model))
  files := outcomes.map fun o => ⟨o.1, o.2.diagnostics⟩

end Composition

namespace Catalog

/-- The paths of the listed files, relative to the directory of the catalog. -/
def paths (c : Catalog) (directory : String) : List String := c.schemas.map (Path.join directory)

/-- Loads every listed file up to the first that cannot be loaded, and composes their models. -/
def load (c : Catalog) (files : Files) (directory : String) : Except LoadError Composition :=
  if c.schemas.isEmpty then .error .noSchemas
  else
    (Composition.ofOutcomes c.merge ·) <$>
      (c.paths directory).mapM fun path => (path, ·) <$> loadPath files path

/-- Whether there is no error, and no warning where warnings are denied. -/
def accepts (c : Catalog) (o : Composition) : Bool :=
  o.errorCount == 0 && !(c.denyWarnings && 0 < o.warningCount)

end Catalog

end BuildVocabulary

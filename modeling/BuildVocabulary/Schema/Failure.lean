import BuildVocabulary.Files.Access
import BuildVocabulary.Json.Location
import BuildVocabulary.Json.Reader

/-!
# Failures

A `LoadError` is a reason why nothing could be loaded: a file or text that cannot be read, a value
of the wrong shape, or a custom type name that breaks the rule. `Expectation` says which shapes a
value may have where it stands.

Faults of files, of JSON text and of catalog text are told apart by category only. What
`LoadError.message` says about them beyond the category is worded here; readers of those formats
have other words, with the place of the fault.
-/

namespace BuildVocabulary

open Json (Location Shape)

/-- The shapes that a value may have where it stands. -/
inductive Expectation where
  | object
  | array
  | string
  | boolean
  | scalar
  | stringOrNull
  | stringOrObject
  | stringOrStrings
  | objectOrArray
  | stringObjectOrArray
  deriving DecidableEq, Repr

def Expectation.phrase : Expectation → String
  | .object => "an object"
  | .array => "an array"
  | .string => "a string"
  | .boolean => "a boolean"
  | .scalar => "a scalar value"
  | .stringOrNull => "a string or null"
  | .stringOrObject => "a string or an object"
  | .stringOrStrings => "a string or an array of strings"
  | .objectOrArray => "an object or an array"
  | .stringObjectOrArray => "a string, an object or an array"

/-- The shapes that meet an expectation. -/
def Expectation.shapes : Expectation → List Shape
  | .object => [.object]
  | .array => [.array]
  | .string => [.string]
  | .boolean => [.boolean]
  | .scalar => [.null, .string, .boolean, .number]
  | .stringOrNull => [.string, .null]
  | .stringOrObject => [.string, .object]
  | .stringOrStrings => [.string, .array]
  | .objectOrArray => [.object, .array]
  | .stringObjectOrArray => [.string, .object, .array]

/-- Why nothing was loaded. -/
inductive LoadError where
  /-- A file cannot be opened. -/
  | file (fault : FileFault)
  /-- A text is not well-formed JSON. -/
  | json (fault : Json.Fault)
  /-- A file of JSON text can be opened but not read. -/
  | jsonFile (fault : FileFault)
  /-- A text is no catalog. -/
  | yaml
  /-- A catalog file can be opened but not read. -/
  | yamlFile (fault : FileFault)
  | notAnObject (found : Shape)
  | unexpectedShape (here : Location) (expected : Expectation) (found : Shape)
  | invalidTypeName (name : String)
  | resourceNotFound (id : String)
  | noSchemas
  deriving DecidableEq, Repr

def LoadError.message : LoadError → String
  | .file fault => s!"I/O error: {fault.message}"
  | .json .endOfInput => "JSON error: the text ends before the document does"
  | .json .malformed => "JSON error: the text is malformed"
  | .jsonFile fault => s!"JSON error: {fault.message}"
  | .yaml => "YAML error: the text is no catalog"
  | .yamlFile fault => s!"YAML error: {fault.message}"
  | .notAnObject found => s!"schema root must be a JSON object, found {found.phrase}"
  | .unexpectedShape here expected found =>
    s!"expected {expected.phrase} at '{here.text}', found {found.phrase}"
  | .invalidTypeName name =>
    s!"invalid custom type name '{name}': use alphanumeric segments separated by single dashes"
  | .resourceNotFound id => s!"embedded schema resource not found: {id}"
  | .noSchemas => "catalog lists no schemas"

end BuildVocabulary

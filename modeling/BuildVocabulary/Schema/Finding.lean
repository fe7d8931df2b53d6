import BuildVocabulary.Diagnostic
import BuildVocabulary.Json.Location

/-!
# Findings

A `Finding` is something worth reporting about how a schema document is written that does not keep
the vocabulary from being built. Each has a severity and a message; only four of them are errors.
-/

namespace BuildVocabulary

open Json (Location)

/-- The kinds of declarations that are described by fields. -/
inductive Role where
  | property
  | item
  | metadata
  deriving DecidableEq, Repr

def Role.label : Role → String
  | .property => "property"
  | .item => "item"
  | .metadata => "metadata"

/-- The sections of a document whose names are defined one by one. -/
inductive Defined where
  | customType
  | property
  | item
  | target
  deriving DecidableEq, Repr

def Defined.label : Defined → String
  | .customType => "custom type"
  | .property => "property"
  | .item => "item"
  | .target => "target"

/-- Something worth reporting about a schema document. -/
inductive Finding where
  | unknownTopLevelKey (key : String)
  | redefined (what : Defined) (name : String)
  | metadataRedefined (metadata item : String)
  /-- A registered custom type is named by its key and by a directive. -/
  | ignoredTypeName (registered : String)
  | unknownTypeDirective (key : String) (here : Location)
  | duplicateValue (value : String) (here : Location)
  | noValues (here : Location)
  | unknownKind (token : String) (here : Location)
  | unknownModifier (segment : String) (here : Location)
  | namelessReference (here : Location)
  | undefinedType (name : String) (here : Location)
  | unknownFieldKey (key : String) (role : Role) (name : String)
  | inlineTypeReplaced (here : Location)
  | inlineTypeIgnored (role : Role) (name : String)
  | idleDeprecationMessage (role : Role) (name : String)
  /-- The kind of an item says that its values come from a custom type. -/
  | itemCustomType (item : String)
  | unknownTargetKey (key target : String)
  | groupWithoutOwners (here : Location)
  | groupAppliesToNone (here : Location)
  | unknownGroupDirective (key : String) (here : Location)
  deriving DecidableEq, Repr

namespace Finding

/-- How badly a finding affects the vocabulary. -/
def severity : Finding → Severity
  | .namelessReference _ | .undefinedType _ _ | .itemCustomType _ | .groupWithoutOwners _ => .error
  | _ => .warning

def message : Finding → String
  | .unknownTopLevelKey key => s!"unknown top-level key '{key}'"
  | .redefined what name => s!"{what.label} '{name}' is defined more than once"
  | .metadataRedefined metadata item =>
    s!"metadata '{metadata}' on item '{item}' is defined more than once"
  | .ignoredTypeName registered =>
    s!"'$name' is ignored on custom type '{registered}', which is named by its key"
  | .unknownTypeDirective key here =>
    s!"unknown directive '{key}' in custom type at '{here.text}'"
  | .duplicateValue value here => s!"duplicate value '{value}' in custom type at '{here.text}'"
  | .noValues here => s!"custom type at '{here.text}' declares no values"
  | .unknownKind token here => s!"unknown value kind '{token}' at '{here.text}'"
  | .unknownModifier segment here =>
    s!"unknown value kind modifier '{segment}' at '{here.text}'"
  | .namelessReference here => s!"custom type reference at '{here.text}' has no name"
  | .undefinedType name here =>
    s!"custom type '{name}' referenced at '{here.text}' is not defined"
  | .unknownFieldKey key role name => s!"unknown key '{key}' in {role.label} '{name}'"
  | .inlineTypeReplaced here =>
    s!"custom type at '{here.text}' replaces an inline custom type declared earlier"
  | .inlineTypeIgnored role name =>
    s!"inline values on {role.label} '{name}' are ignored because it references a named " ++
      "custom type"
  | .idleDeprecationMessage role name =>
    s!"{role.label} '{name}' has a deprecation message but is not deprecated"
  | .itemCustomType item => s!"custom type not permitted for items (item '{item}')"
  | .unknownTargetKey key target => s!"unknown key '{key}' in target '{target}'"
  | .groupWithoutOwners here =>
    s!"metadata group at '{here.text}' has no '$appliesTo' and was skipped"
  | .groupAppliesToNone here => s!"metadata group at '{here.text}' applies to no items"
  | .unknownGroupDirective key here =>
    s!"unknown directive '{key}' in metadata group at '{here.text}'"

def diagnostic (f : Finding) : Diagnostic := ⟨f.severity, f.message⟩

end Finding

end BuildVocabulary

import BuildVocabulary.Model

/-!
# Validation

`Model.problems` lists where a model breaks its own rules: an entity is stored under its name, a
metadata instance is owned by the item that holds it, and a field with a custom type kind has a
custom type. The kind of an item itself is not looked at.
-/

namespace BuildVocabulary

inductive Problem where
  /-- A custom type name is not made of segments with single dashes between them. -/
  | invalidTypeName (name : String)
  /-- A metadata instance names another owner than the item that holds it. -/
  | ownerMismatch (item metadata owner : String)
  /-- A field has a custom type kind and no custom type. -/
  | unresolvedType (field : String)
  /-- An entity is stored under a name that is not its own. -/
  | keyMismatch (key name : String)
  deriving DecidableEq, Repr

def Problem.message : Problem → String
  | .invalidTypeName name => s!"invalid custom type name: '{name}'"
  | .ownerMismatch item metadata owner =>
    s!"metadata '{metadata}' on item '{item}' is owned by '{owner}'"
  | .unresolvedType field => s!"'{field}' has a custom type kind but no resolved custom type"
  | .keyMismatch key name => s!"entity '{name}' is stored under key '{key}'"

/-- The problem with a custom type name, if there is one. -/
def typeNameProblem? (name : String) : Option Problem :=
  if isTypeName name then none else some (.invalidTypeName name)

/-- Entries whose name is not that of their value. -/
def NameMap.keyProblems {α : Type} (name : α → String) (m : NameMap α) : List Problem :=
  m.toList.filterMap fun e =>
    if SameName e.1 (name e.2) then none else some (.keyMismatch e.1 (name e.2))

/-- The problem with the custom type of a field, if there is one. -/
def typeProblem? (field : String) (kind : Kind) (type : Option CustomType) : Option Problem :=
  if kind.modifiers.customType && type.isNone then some (.unresolvedType field) else none

/-- The problems of metadata that an item holds. -/
def Item.metadataProblems (i : Item) (m : Metadata) : List Problem :=
  (if SameName m.item i.name then [] else [.ownerMismatch i.name m.name m.item]) ++
    (typeProblem? s!"{i.name}.{m.name}" m.kind m.customType).toList

def Item.problems (i : Item) : List Problem :=
  i.metadata.keyProblems (·.name) ++ i.metadata.values.flatMap i.metadataProblems

/-- The problems of a model: names of entities first, then properties, then items. -/
def Model.problems (m : Model) : List Problem :=
  m.properties.keyProblems (·.name) ++ m.items.keyProblems (·.name) ++
    m.tasks.keyProblems (·.name) ++ m.targets.keyProblems (·.name) ++
    m.properties.values.filterMap (fun p => typeProblem? p.name p.kind p.customType) ++
    m.items.values.flatMap Item.problems

end BuildVocabulary

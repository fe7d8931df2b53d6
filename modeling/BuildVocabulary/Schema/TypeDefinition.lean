import BuildVocabulary.CustomType
import BuildVocabulary.NameMap
import BuildVocabulary.Schema.Resolve
import BuildVocabulary.Schema.Shape

/-!
# Definitions of custom types

A custom type is written as an array of values, or as an object whose keys are the values and whose
members describe them. An object may also hold comments, and directives that name the type or let
it take values that are not listed. A value that repeats an earlier one is reported and left out.

* `declareAll`: the map that the members of a section build, one entry a name;
* `resolveType`, `resolveNamedType`: a custom type, in place or in the registry.
-/

namespace BuildVocabulary

open Json (Location Members)

/-! ## Sections of named things -/

section Declarations

variable {α : Type} (again : String → Finding) (resolve : Location → String → Json → Resolve α)

/-- Adds what one member declares. A name that is there already is reported, and replaced. -/
def declare (here : Location) (m : NameMap α) (e : String × Json) : Resolve (NameMap α) :=
  if isComment e.1 then pure m
  else do
    let a ← resolve (here.key e.1) e.1 e.2
    Resolve.reportIf (m.contains e.1) (again e.1)
    pure (m.insert e.1 a)

/-- The map that the members of a section declare; comments declare nothing. -/
def declareAll (here : Location) (ms : Members) : Resolve (NameMap α) :=
  ms.foldlM (declare again resolve here) .empty

def resolveSection (here : Location) (v : Json) : Resolve (NameMap α) := do
  let ms ← Json.requireObject here v
  declareAll again resolve here ms

end Declarations

/-! ## One custom type -/

/-- Fails unless a name keeps the rule for custom type names. -/
def requireTypeName (name : String) : Except LoadError Unit :=
  if isTypeName name then .ok () else .error (.invalidTypeName name)

/-- Adds a value, unless there is one with its text. -/
def CustomType.addValue (here : Location) (t : CustomType) (v : TypeValue) : Resolve CustomType :=
  if (t.find? v.value).isSome then .ok t [.duplicateValue v.value here]
  else pure { t with values := t.values ++ [v] }

/-- Adds what one member of the object form says. -/
def CustomType.addMember (registered : Option String) (here : Location) (t : CustomType)
    (e : String × Json) : Resolve CustomType :=
  if e.1 = "$name" then do
    let name ← Json.requireText (here.key e.1) e.2
    -- a name has to keep the rule even where it is ignored
    requireTypeName name
    match registered with
    | some r => .ok t [.ignoredTypeName r]
    | none => pure { t with name := some name }
  else if e.1 = "$allow-unknown-values" then do
    let allow ← Json.requireBool (here.key e.1) e.2
    pure { t with allowUnknown := allow }
  else if isComment e.1 then pure t
  else if isDirective e.1 then .ok t [.unknownTypeDirective e.1 here]
  else do
    let description ← Json.requireText? (here.key e.1) e.2
    t.addValue here ⟨e.1, description⟩

/-- Adds the values of the array form, which are counted from `i`. -/
def CustomType.addItems (here : Location) (i : Nat) (t : CustomType) :
    List Json → Resolve CustomType
  | [] => pure t
  | v :: vs => do
    let value ← Json.requireText (here.index i) v
    let t ← t.addValue here ⟨value, none⟩
    t.addItems here (i + 1) vs

/-- The custom type that a value defines. `registered` is the key of a type in the registry; a type
without one is nameless unless it names itself. -/
def resolveType (registered : Option String) (here : Location) (v : Json) :
    Resolve CustomType := do
  let blank : CustomType := { name := registered }
  let t ← match v with
    | .object ms => ms.foldlM (CustomType.addMember registered here) blank
    | .array vs => blank.addItems here 0 vs
    | v => .fail (Json.unexpected here .objectOrArray v)
  Resolve.reportIf (t.values.isEmpty && !t.allowUnknown) (.noValues here)
  pure t

/-! ## The registry -/

/-- The named custom types of a document. -/
abbrev Registry := NameMap CustomType

def resolveNamedType (here : Location) (name : String) (v : Json) : Resolve CustomType := do
  requireTypeName name
  resolveType (some name) here v

end BuildVocabulary

import BuildVocabulary.Entity
import BuildVocabulary.Schema.KindToken

/-!
# Fields

Properties, items and metadata are described by the same fields. `Field.put` collects what each key
says; the kind and the deprecation are worked out when all keys are known, so that they do not
depend on the order of keys.

* `FieldKey.table`: the keys that each role may use;
* `Field.resolved`, `Field.deprecation`: what the collected keys mean together.
-/

namespace BuildVocabulary

open Json (Location Members)

/-- A key that describes a field. -/
inductive FieldKey where
  | description
  | type
  | values
  | deprecated
  | deprecationMessage
  | listSeparators
  | defaultValue
  | required
  | includeDescription
  | metadata
  deriving DecidableEq, Repr

/-- The keys that every role may use. -/
def FieldKey.shared : List (String × FieldKey) :=
  [("description", .description), ("type", .type), ("values", .values),
    ("deprecated", .deprecated), ("deprecationMessage", .deprecationMessage)]

/-- The keys that a role may use. -/
def FieldKey.table : Role → List (String × FieldKey)
  | .property => shared ++ [("listSeparators", .listSeparators), ("defaultValue", .defaultValue)]
  | .metadata =>
    shared ++ [("listSeparators", .listSeparators), ("defaultValue", .defaultValue),
      ("required", .required)]
  | .item => shared ++ [("includeDescription", .includeDescription), ("metadata", .metadata)]

/-- What the keys of a field say. -/
structure Field where
  description : Option String := none
  /-- What a type token stands for. -/
  declared : Resolved := {}
  /-- A custom type written out in place. -/
  inlineType : Option CustomType := none
  deprecated : Option Bool := none
  deprecationMessage : Option String := none
  separators : Option String := none
  defaultValue : Option String := none
  required : Bool := false
  includeDescription : Option String := none
  metadata : Option Json := none

namespace Field

/-! ## Collecting keys -/

/-- Takes a custom type written out in place; one that was there already is replaced. -/
def putInline (here : Location) (f : Field) (v : Json) : Resolve Field := do
  let t ← resolveType none here v
  Resolve.reportIf f.inlineType.isSome (.inlineTypeReplaced here)
  pure { f with inlineType := some t }

/-- Takes the value of a known key, at its location. -/
def put (registry : Registry) (here : Location) (f : Field) (v : Json) : FieldKey → Resolve Field
  | .description => do
    let d ← Json.requireText? here v
    pure { f with description := d }
  | .type =>
    match v with
    | .text token => do
      let r ← resolveToken registry here token
      pure { f with declared := r }
    | .object _ | .array _ => f.putInline here v
    | v => .fail (Json.unexpected here .stringObjectOrArray v)
  | .values => f.putInline here v
  | .deprecated => do
    let b ← Json.requireBool here v
    pure { f with deprecated := some b }
  | .deprecationMessage => do
    let d ← Json.requireText? here v
    pure { f with deprecationMessage := d }
  | .listSeparators => do
    let s ← Json.requireText here v
    pure { f with separators := some s }
  | .defaultValue => do
    let d ← Json.requireScalar? here v
    pure { f with defaultValue := d }
  | .required => do
    let b ← Json.requireBool here v
    pure { f with required := b }
  | .includeDescription => do
    let d ← Json.requireText? here v
    pure { f with includeDescription := d }
  | .metadata => pure { f with metadata := some v }

/-- Takes one member of a field of this role and name. -/
def add (registry : Registry) (role : Role) (name : String) (here : Location) (f : Field)
    (e : String × Json) : Resolve Field :=
  if isComment e.1 then pure f
  else
    match (FieldKey.table role).lookup e.1 with
    | some k => f.put registry (here.key e.1) e.2 k
    | none => .ok f [.unknownFieldKey e.1 role name]

/-! ## What the keys mean together -/

/-- The kind that the type token and the list separators stand for. -/
def separatedKind (f : Field) : Kind :=
  match f.separators with
  | some s => f.declared.kind.adding (.ofSeparators s)
  | none => f.declared.kind

/-- Whether a custom type written out in place gives way to one that is referenced by name. -/
def ignoresInline (f : Field) : Bool :=
  f.inlineType.isSome && f.separatedKind.modifiers.customType

/-- The kind and custom type of the field. A custom type written out in place gives the kind to a
field that has none. -/
def resolved (f : Field) : Resolved :=
  let kind := f.separatedKind
  match f.inlineType with
  | none => ⟨kind, f.declared.customType⟩
  | some t =>
    if kind.modifiers.customType then ⟨kind, f.declared.customType⟩
    else if kind.isUnknown && !t.values.isEmpty then
      ⟨Kind.ofCustomType.adding kind.modifiers, some t⟩
    else ⟨kind, some t⟩

/-- Whether the field is deprecated: as it says, or else if it gives a reason. -/
def isDeprecated (f : Field) : Bool := f.deprecated.getD f.deprecationMessage.isSome

def deprecation (f : Field) : Deprecation :=
  if f.isDeprecated then ⟨true, f.deprecationMessage⟩ else {}

/-- What is reported once all keys are known. -/
def closingFindings (role : Role) (name : String) (f : Field) : List Finding :=
  (if f.ignoresInline then [.inlineTypeIgnored role name] else []) ++
    if !f.isDeprecated && f.deprecationMessage.isSome then [.idleDeprecationMessage role name]
    else []

end Field

/-- The field that the members of an object describe. -/
def resolveField (registry : Registry) (role : Role) (name : String) (here : Location)
    (ms : Members) : Resolve Field := do
  let f ← ms.foldlM (Field.add registry role name here) {}
  .ok f (f.closingFindings role name)

end BuildVocabulary

import BuildVocabulary.Diagnostic
import BuildVocabulary.Json.Basic
import BuildVocabulary.Model

/-!
# Models as JSON documents

Every entity is written as an object with all of its fields, in a fixed order; an absent value is
written as `null`. The two fields of a deprecation stand among the fields of the entity.
-/

namespace BuildVocabulary

/-- A text, or `null`. -/
def encodeText? : Option String → Json
  | some s => .text s
  | none => .null

def Kind.encode (k : Kind) : Json :=
  .object [("base", .text k.base.label), ("modifiers", .text k.modifiers.label)]

def TypeValue.encode (v : TypeValue) : Json :=
  .object [("value", .text v.value), ("description", encodeText? v.description)]

def CustomType.encode (t : CustomType) : Json :=
  .object [("name", encodeText? t.name), ("values", .array (t.values.map TypeValue.encode)),
    ("allow_unknown_values", .bool t.allowUnknown)]

def encodeType? : Option CustomType → Json
  | some t => t.encode
  | none => .null

/-- The fields of a deprecation. -/
def Deprecation.members (d : Deprecation) : Json.Members :=
  [("is_deprecated", .bool d.isDeprecated), ("message", encodeText? d.message)]

/-- A map as a document: its entries in order, under the names that they are stored under. -/
def NameMap.encode {α : Type} (f : α → Json) (m : NameMap α) : Json := .object (m.toMembers f)

def Property.encode (p : Property) : Json :=
  .object ([("name", .text p.name), ("description", encodeText? p.description),
    ("kind", p.kind.encode), ("custom_type", encodeType? p.customType),
    ("default_value", encodeText? p.defaultValue)] ++ p.deprecation.members)

def Metadata.encode (m : Metadata) : Json :=
  .object ([("name", .text m.name), ("description", encodeText? m.description),
    ("reserved", .bool m.reserved), ("required", .bool m.required), ("kind", m.kind.encode),
    ("item", .text m.item), ("custom_type", encodeType? m.customType),
    ("default_value", encodeText? m.defaultValue)] ++ m.deprecation.members)

def Item.encode (i : Item) : Json :=
  .object ([("name", .text i.name), ("description", encodeText? i.description),
    ("include_description", encodeText? i.includeDescription), ("kind", i.kind.encode),
    ("custom_type", encodeType? i.customType)] ++ i.deprecation.members ++
    [("metadata", i.metadata.encode Metadata.encode)])

def Task.encode (t : Task) : Json :=
  .object [("name", .text t.name), ("description", encodeText? t.description)]

def Target.encode (t : Target) : Json :=
  .object [("name", .text t.name), ("description", encodeText? t.description)]

def Entity.encode : Entity → Json
  | .property p => p.encode
  | .item i => i.encode
  | .task t => t.encode
  | .target t => t.encode

def Model.encode (m : Model) : Json :=
  .object [("properties", m.properties.encode Property.encode),
    ("items", m.items.encode Item.encode), ("tasks", m.tasks.encode Task.encode),
    ("targets", m.targets.encode Target.encode), ("imports", .array (m.imports.map .text))]

def Diagnostic.encode (d : Diagnostic) : Json :=
  .object [("message", .text d.message), ("severity", .text d.severity.label)]

def Diagnostics.encode (ds : Diagnostics) : Json := .array (ds.map Diagnostic.encode)

end BuildVocabulary

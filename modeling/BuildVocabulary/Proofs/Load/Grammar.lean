import BuildVocabulary.CustomType
import BuildVocabulary.Schema.Finding
import BuildVocabulary.Schema.Shape

/-!
# The grammar of schema documents

Which documents are schema documents, said by shapes alone: what may stand under a key, and where
anything may stand. Type tokens and other texts are not looked into, except for the names of custom
types.

* `TypeShape`, `FieldShape`: custom types, and what describes a field of each role;
* `EntryShape`, `ItemShape`, `TargetShape`, `GroupShape`: the entries of the sections;
* **`DocumentShape`**: whole documents.
-/

namespace BuildVocabulary.Json

variable {role : Role} {vs : List Json} {ms : Members}

/-! ## Plain shapes -/

/-- A string or `null`. -/
def TextOrNull (v : Json) : Prop := v.shape = .string ∨ v.shape = .null

/-- A string, a number, a boolean or `null`. -/
def Scalar (v : Json) : Prop := v.shape ≠ .array ∧ v.shape ≠ .object

/-- An array of strings. -/
def Texts : Json → Prop
  | .array vs => ∀ v ∈ vs, v.shape = .string
  | _ => False

/-- An object whose members keep a rule for their key and value; comments keep none. -/
def Section (rule : String → Json → Prop) : Json → Prop
  | .object ms => ∀ e ∈ ms, isComment e.1 = false → rule e.1 e.2
  | _ => False

/-- The last value of a key. -/
def Members.last? (ms : Members) (key : String) : Option Json := find? ms.reverse key

/-! ## Custom types -/

/-- The rule for members of a custom type: two directives have a shape of their own, other
directives may hold anything, and every other key is a value with its description. -/
structure TypeMember (key : String) (v : Json) : Prop where
  name : key = "$name" → ∃ name, v = .text name ∧ isTypeName name = true
  allowUnknown : key = "$allow-unknown-values" → v.shape = .boolean
  value : isDirective key = false → v.TextOrNull

/-- A list of values, or values with descriptions. -/
def TypeShape (v : Json) : Prop := v.Texts ∨ v.Section TypeMember

section TypeMember

variable {key : String} {v : Json}

theorem typeMember_name :
    TypeMember "$name" v ↔ ∃ name, v = .text name ∧ isTypeName name = true := by
  have hd : isDirective "$name" = true := by decide
  exact ⟨fun h => h.name rfl, fun h => ⟨fun _ => h, by simp, by simp [hd]⟩⟩

theorem typeMember_allowUnknown : TypeMember "$allow-unknown-values" v ↔ v.shape = .boolean := by
  have hd : isDirective "$allow-unknown-values" = true := by decide
  exact ⟨fun h => h.allowUnknown rfl, fun h => ⟨by simp, fun _ => h, by simp [hd]⟩⟩

theorem typeMember_iff (hname : key ≠ "$name") (hallow : key ≠ "$allow-unknown-values") :
    TypeMember key v ↔ (isDirective key = false → v.TextOrNull) :=
  ⟨fun h => h.value, fun h => ⟨fun hk => absurd hk hname, fun hk => absurd hk hallow, h⟩⟩

end TypeMember

theorem typeShape_array : (array vs).TypeShape ↔ (array vs).Texts := by
  simp [TypeShape, Section]

theorem typeShape_object : (object ms).TypeShape ↔ (object ms).Section TypeMember := by
  simp [TypeShape, Texts]

/-! ## Fields -/

/-- The rule for members of a field. Keys that its role does not use may hold anything. -/
structure FieldMember (role : Role) (key : String) (v : Json) : Prop where
  description : key = "description" → v.TextOrNull
  type : key = "type" → v.shape = .string ∨ v.TypeShape
  values : key = "values" → v.TypeShape
  deprecated : key = "deprecated" → v.shape = .boolean
  deprecationMessage : key = "deprecationMessage" → v.TextOrNull
  listSeparators : key = "listSeparators" → role ≠ .item → v.shape = .string
  defaultValue : key = "defaultValue" → role ≠ .item → v.Scalar
  required : key = "required" → role = .metadata → v.shape = .boolean
  includeDescription : key = "includeDescription" → role = .item → v.TextOrNull

/-- An object that describes a field. -/
def FieldShape (role : Role) (v : Json) : Prop := v.Section (FieldMember role)

/-! ## Entries -/

/-- A property or a metadata declaration: a bare description, or a field. -/
def EntryShape (role : Role) (v : Json) : Prop := v.shape = .string ∨ v.FieldShape role

@[simp] theorem entryShape_text (s : String) : (text s).EntryShape role := .inl rfl

theorem entryShape_object : (object ms).EntryShape role ↔ (object ms).FieldShape role := by
  simp [EntryShape, shape]

/-- Metadata declarations by name. -/
def MetadataShape (v : Json) : Prop := v.Section fun _ w => w.EntryShape .metadata

/-- An item: a field, with metadata declared inside it. A repeated key has its last value. -/
def ItemShape : Json → Prop
  | .object ms => FieldShape .item (.object ms) ∧
      ∀ w, Members.last? ms "metadata" = some w → w.MetadataShape
  | _ => False

/-- A target: a bare description, or an object with a description. -/
def TargetShape (v : Json) : Prop :=
  v.shape = .string ∨ v.Section fun key w => key = "description" → w.TextOrNull

/-- A metadata group. Without a list of items it may hold anything; what it declares is looked at
only where the list is not empty. -/
def GroupShape : Json → Prop
  | .object ms => ∀ owners, Members.find? ms "$appliesTo" = some owners →
      (owners.shape = .string ∨ owners.Texts) ∧ (owners ≠ .array [] →
        Section (fun key w => isDirective key = false → w.EntryShape .metadata) (.object ms))
  | _ => False

/-! ## Documents -/

/-- The sections of a document. Other keys may hold anything. -/
structure Sections (ms : Members) : Prop where
  imports : ∀ v, ms.find? "intellisenseImports" = some v → v.Texts
  customTypes : ∀ v, ms.find? "customTypes" = some v →
    v.Section fun name w => isTypeName name = true ∧ w.TypeShape
  properties : ∀ v, ms.find? "properties" = some v → v.Section fun _ w => w.EntryShape .property
  items : ∀ v, ms.find? "items" = some v → v.Section fun _ w => w.ItemShape
  groups : ∀ v, ms.find? "metadata" = some v → ∃ gs, v = .array gs ∧ ∀ g ∈ gs, g.GroupShape
  targets : ∀ v, ms.find? "targets" = some v → v.Section fun _ w => w.TargetShape

/-- A schema document. -/
def DocumentShape : Json → Prop
  | .object ms => Sections ms
  | _ => False

end BuildVocabulary.Json

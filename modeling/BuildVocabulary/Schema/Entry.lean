import BuildVocabulary.Model
import BuildVocabulary.Schema.Field

/-!
# Entries of a document

What one entry of a section declares: a property, an item with its metadata, or a target.
Properties, metadata and targets may be written as a bare description; items are always objects.
-/

namespace BuildVocabulary

open Json (Location)

variable (registry : Registry)

def resolveProperty (here : Location) (name : String) : Json → Resolve Property
  | .text description => pure { name, description := some description }
  | .object ms => do
    let f ← resolveField registry .property name here ms
    pure { name, description := f.description, kind := f.resolved.kind,
           customType := f.resolved.customType, defaultValue := f.defaultValue,
           deprecation := f.deprecation }
  | v => .fail (Json.unexpected here .stringOrObject v)

/-- The metadata that an entry declares for an item. -/
def resolveMetadata (item : String) (here : Location) (name : String) :
    Json → Resolve Metadata
  | .text description => pure { name, item, description := some description }
  | .object ms => do
    let f ← resolveField registry .metadata name here ms
    pure { name, item, description := f.description, required := f.required,
           kind := f.resolved.kind, customType := f.resolved.customType,
           defaultValue := f.defaultValue, deprecation := f.deprecation }
  | v => .fail (Json.unexpected here .stringOrObject v)

/-- The metadata that is declared inside an item. -/
def resolveItemMetadata (item : String) (here : Location) : Option Json →
    Resolve (NameMap Metadata)
  | none => pure .empty
  | some v =>
    resolveSection (fun name => .metadataRedefined name item) (resolveMetadata registry item)
      here v

/-- The item that an entry declares. Items cannot take their values from a custom type: that is
reported, and the item keeps its kind. -/
def resolveItem (here : Location) (name : String) (v : Json) : Resolve Item := do
  let ms ← Json.requireObject here v
  let f ← resolveField registry .item name here ms
  Resolve.reportIf f.resolved.kind.modifiers.customType (.itemCustomType name)
  let metadata ← resolveItemMetadata registry name (here.key "metadata") f.metadata
  pure { name, description := f.description, includeDescription := f.includeDescription,
         kind := f.resolved.kind, customType := f.resolved.customType,
         deprecation := f.deprecation, metadata }

def Target.add (here : Location) (t : Target) (e : String × Json) : Resolve Target :=
  if e.1 = "description" then do
    let d ← Json.requireText? (here.key e.1) e.2
    pure { t with description := d }
  else if isComment e.1 then pure t
  else .ok t [.unknownTargetKey e.1 t.name]

def resolveTarget (here : Location) (name : String) : Json → Resolve Target
  | .text description => pure { name, description := some description }
  | .object ms => ms.foldlM (Target.add here) { name }
  | v => .fail (Json.unexpected here .stringOrObject v)

end BuildVocabulary

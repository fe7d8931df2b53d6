import BuildVocabulary.Resources
import BuildVocabulary.Schema.Group

/-!
# Loading a schema document

A schema document is an object with up to six sections. They are loaded in a fixed order whatever
their order in the document: imports, custom types, properties, items, metadata groups, targets. So
custom types are known before fields refer to them, and items before groups apply to them. Every
section is a phase that gets the model and the diagnostics that the phases before it left.

* `Loading.document`: the phases, one after the other;
* `load`: the outcome of a document;
* `loadBytes`, `loadText`: from JSON text;
* `loadPath`: from a file.
-/

namespace BuildVocabulary

open Json (Location Members)

namespace SectionKey

def imports : String := "intellisenseImports"

def customTypes : String := "customTypes"

def properties : String := "properties"

def items : String := "items"

def groups : String := "metadata"

def targets : String := "targets"

/-- The keys that may stand at the top of a document; two of them carry no vocabulary. -/
def known : List String :=
  [imports, customTypes, properties, items, groups, targets, "license", "$schema"]

end SectionKey

/-- What a section gives, if the document has it. -/
def sectionOr {m : Type → Type} [Monad m] {α : Type} (ms : Members) (key : String) (absent : α)
    (resolve : Location → Json → m α) : m α :=
  match ms.find? key with
  | some v => resolve [.key key] v
  | none => pure absent

namespace Loading

/-! ## The phases -/

def reportUnknownKeys (ms : Members) : Loading Unit :=
  ms.forM fun e => reportIf (!SectionKey.known.contains e.1) (.unknownTopLevelKey e.1)

def addImport (here : Location) (v : Json) : Loading Unit := do
  let id ← Json.requireText here v
  change fun m => { m with imports := m.imports ++ [id] }

def addImports (here : Location) (v : Json) : Loading Unit := do
  let vs ← Json.requireArray here v
  forElements addImport here 0 vs

/-- The named custom types of a document. -/
def buildRegistry : Location → Json → Loading Registry :=
  foldMembers (fun registry there name v => do
    let t ← take (resolveNamedType there name v)
    reportIf (registry.contains name) (.redefined .customType name)
    pure (registry.insert name t)) .empty

/-- Adds an entity to its section. An entity of the name that is there already is reported, and
replaced. -/
def addEntity (s : Section) (what : Defined) (name : String) (e : Entity) : Loading Unit := do
  let known ← look (·.find? s name)
  reportIf known.isSome (.redefined what name)
  change (·.add e)

/-- Adds what the members of a section declare. -/
def addSection {α : Type} (s : Section) (what : Defined) (entity : α → Entity)
    (resolve : Location → String → Json → Resolve α) : Location → Json → Loading Unit :=
  foldMembers (fun _ there name v => do
    let a ← take (resolve there name v)
    addEntity s what name (entity a)) ()

def addProperties (registry : Registry) : Location → Json → Loading Unit :=
  addSection .properties .property .property (resolveProperty registry)

def addItems (registry : Registry) : Location → Json → Loading Unit :=
  addSection .items .item .item (resolveItem registry)

def addTargets : Location → Json → Loading Unit :=
  addSection .targets .target .target resolveTarget

/-! ## Documents -/

/-- Loads the members of a document, one phase after the other. -/
def document (ms : Members) : Loading Unit := do
  reportUnknownKeys ms
  sectionOr ms SectionKey.imports () addImports
  let registry ← sectionOr ms SectionKey.customTypes .empty buildRegistry
  sectionOr ms SectionKey.properties () (addProperties registry)
  sectionOr ms SectionKey.items () (addItems registry)
  sectionOr ms SectionKey.groups () (applyGroups registry)
  sectionOr ms SectionKey.targets () addTargets

end Loading

def load : Json → Except LoadError Outcome
  | .object ms => Prod.snd <$> (Loading.document ms).run {}
  | v => .error (.notAnObject v.shape)

def loadBytes (bytes : List UInt8) : Except LoadError Outcome :=
  match Json.read bytes with
  | .ok doc => load doc
  | .error fault => .error (.json fault)

def loadText (text : String) : Except LoadError Outcome := loadBytes text.toUTF8.data.toList

def loadPath (files : Files) (path : String) : Except LoadError Outcome :=
  match files path with
  | .ok bytes => loadBytes bytes
  | .error .isDirectory => .error (.jsonFile .isDirectory)
  | .error fault => .error (.file fault)

def Resources.get (r : Resources) (id : String) : Except LoadError String :=
  match r.find? id with
  | some text => .ok text
  | none => .error (.resourceNotFound id)

def Resources.load (r : Resources) (id : String) : Except LoadError Outcome := do
  loadText (← r.get id)

end BuildVocabulary

import BuildVocabulary.Entity

/-!
# The vocabulary model

A `Model` is the vocabulary that one or more schema documents declare.

* `Model.entities`: every entity with its description: items, properties, tasks, then targets;
* `Model.Agrees`: equality up to the order of entries in every map.
-/

namespace BuildVocabulary

structure Model where
  properties : NameMap Property := .empty
  items : NameMap Item := .empty
  tasks : NameMap Task := .empty
  targets : NameMap Target := .empty
  /-- Identifiers of other schemas that are pulled in. -/
  imports : List String := []
  deriving DecidableEq

instance : Inhabited Model := ⟨{}⟩

/-- A map of a model. -/
inductive Section where
  | properties
  | items
  | tasks
  | targets
  deriving DecidableEq, Repr

/-- An entity that a model holds by name. -/
inductive Entity where
  | property (p : Property)
  | item (i : Item)
  | task (t : Task)
  | target (t : Target)

namespace Entity

def name : Entity → String
  | .property p => p.name
  | .item i => i.name
  | .task t => t.name
  | .target t => t.name

def description : Entity → Option String
  | .property p => p.description
  | .item i => i.description
  | .task t => t.description
  | .target t => t.description

def describe (d : Option String) : Entity → Entity
  | .property p => .property { p with description := d }
  | .item i => .item { i with description := d }
  | .task t => .task { t with description := d }
  | .target t => .target { t with description := d }

end Entity

namespace Model

/-- Puts an entity under a name of its own section. -/
def put (m : Model) (name : String) : Entity → Model
  | .property p => { m with properties := m.properties.insert name p }
  | .item i => { m with items := m.items.insert name i }
  | .task t => { m with tasks := m.tasks.insert name t }
  | .target t => { m with targets := m.targets.insert name t }

def add (m : Model) (e : Entity) : Model := m.put e.name e

/-- The entity of a section under a name, in any spelling. -/
def find? (m : Model) (s : Section) (name : String) : Option Entity :=
  match s with
  | .properties => (m.properties.find? name).map .property
  | .items => (m.items.find? name).map .item
  | .tasks => (m.tasks.find? name).map .task
  | .targets => (m.targets.find? name).map .target

/-- Removes the entity of a section under a name. -/
def erase (m : Model) (s : Section) (name : String) : Model :=
  match s with
  | .properties => { m with properties := m.properties.erase name }
  | .items => { m with items := m.items.erase name }
  | .tasks => { m with tasks := m.tasks.erase name }
  | .targets => { m with targets := m.targets.erase name }

/-- Gives every entity of a section one description. -/
def describeAll (m : Model) (s : Section) (d : Option String) : Model :=
  match s with
  | .properties => { m with properties := m.properties.map fun p => { p with description := d } }
  | .items => { m with items := m.items.map fun i => { i with description := d } }
  | .tasks => { m with tasks := m.tasks.map fun t => { t with description := d } }
  | .targets => { m with targets := m.targets.map fun t => { t with description := d } }

/-- Every entity: items, then properties, then tasks, then targets. -/
def entities (m : Model) : List Entity :=
  m.items.values.map .item ++ m.properties.values.map .property ++ m.tasks.values.map .task ++
    m.targets.values.map .target

def entityCount (m : Model) : Nat :=
  m.items.size + m.properties.size + m.tasks.size + m.targets.size

def isEmpty (m : Model) : Bool := m.entityCount = 0 && m.imports.isEmpty

/-- Equality up to the order of entries in every map. -/
def Agrees (m n : Model) : Prop :=
  m.properties.Agrees Eq n.properties ∧ m.items.Agrees Item.Agrees n.items ∧
    m.tasks.Agrees Eq n.tasks ∧ m.targets.Agrees Eq n.targets ∧ m.imports = n.imports

instance : DecidableRel Agrees := fun _ _ => inferInstanceAs (Decidable (_ ∧ _))

theorem length_entities (m : Model) : m.entities.length = m.entityCount := by
  simp [entities, entityCount, NameMap.values, NameMap.size]
  omega

end Model

end BuildVocabulary

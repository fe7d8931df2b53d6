import BuildVocabulary.CustomType
import BuildVocabulary.Kind
import BuildVocabulary.NameMap

/-!
# Entities of a vocabulary

Properties, items with their metadata, tasks and targets. A metadata instance belongs to one item,
whose name it carries; `Metadata.copyFor` makes an instance for another item.

* `Item.Agrees`: equality of items up to the order of their metadata.
-/

namespace BuildVocabulary

/-- Whether a field is deprecated, and why. -/
structure Deprecation where
  isDeprecated : Bool := false
  message : Option String := none
  deriving DecidableEq, Repr

structure Property where
  name : String
  description : Option String := none
  kind : Kind := {}
  customType : Option CustomType := none
  defaultValue : Option String := none
  deprecation : Deprecation := {}
  deriving DecidableEq, Repr

/-- A metadata field of an item. -/
structure Metadata where
  name : String
  description : Option String := none
  /-- Provided by the build engine itself. -/
  reserved : Bool := false
  required : Bool := false
  kind : Kind := {}
  /-- The name of the item that owns this instance. -/
  item : String
  customType : Option CustomType := none
  defaultValue : Option String := none
  deprecation : Deprecation := {}
  deriving DecidableEq, Repr

/-- The same declaration owned by another item. Deprecation stays with the first owner. -/
def Metadata.copyFor (m : Metadata) (item : String) : Metadata :=
  { m with item, deprecation := {} }

/-- An item type and the metadata that its items may carry. -/
structure Item where
  name : String
  description : Option String := none
  /-- What the items are included by. -/
  includeDescription : Option String := none
  kind : Kind := {}
  customType : Option CustomType := none
  deprecation : Deprecation := {}
  metadata : NameMap Metadata := .empty
  deriving DecidableEq

namespace Item

/-- Attaches metadata under its own name, in place of metadata of that name. -/
def attach (i : Item) (m : Metadata) : Item := { i with metadata := i.metadata.insert m.name m }

/-- Equality up to the order of metadata. -/
def Agrees (i j : Item) : Prop :=
  { i with metadata := .empty } = { j with metadata := .empty } ∧
    i.metadata.Agrees Eq j.metadata

instance : DecidableRel Agrees := fun _ _ => inferInstanceAs (Decidable (_ ∧ _))

end Item

structure Task where
  name : String
  description : Option String := none
  deriving DecidableEq, Repr

structure Target where
  name : String
  description : Option String := none
  deriving DecidableEq, Repr

end BuildVocabulary

import BuildVocabulary.Model

/-!
# Composing models

`Model.merge` lays one model over another. Entities of one name are matched ignoring ASCII case; a
`Strategy` says which of them wins. Names of the base keep their order, new names follow in the
order of the overlay, and imports are appended unless they are there already.
-/

namespace BuildVocabulary

/-- What happens to entities that both models declare. -/
inductive Strategy where
  /-- The base wins. -/
  | preferBase
  /-- The overlay wins. -/
  | preferOverlay
  /-- The overlay wins, and the metadata of items is combined. -/
  | union
  deriving DecidableEq, Repr, Inhabited

namespace Strategy

def table : List (Strategy × String) :=
  [(preferBase, "prefer-base"), (preferOverlay, "prefer-overlay"), (union, "union")]

def label (s : Strategy) : String := (table.lookup s).getD ""

def ofLabel? (name : String) : Option Strategy := (table.find? fun e => e.2 = name).map Prod.fst

end Strategy

/-- Lays entries over a map one by one, in overlay order. -/
def NameMap.overlay {α : Type} (s : Strategy) (base overlay : NameMap α) : NameMap α :=
  overlay.toList.foldl
    (fun m e => if s = .preferBase ∧ m.contains e.1 then m else m.insert e.1 e.2) base

/-- The item of the overlay, with what it leaves open taken from the base. -/
def Item.union (base overlay : Item) : Item :=
  { overlay with
    description := overlay.description.or base.description
    includeDescription := overlay.includeDescription.or base.includeDescription
    metadata := overlay.metadata.toList.foldl (fun m e => m.insert e.1 e.2) base.metadata }

/-- The item that stands for two items of one name. -/
def Item.resolve (s : Strategy) (base overlay : Item) : Item :=
  match s with
  | .preferBase => base
  | .preferOverlay => overlay
  | .union => base.union overlay

/-- Lays items over a map one by one. An item that is there is resolved where it stands, under the
spelling that it has. -/
def overlayItems (s : Strategy) (base overlay : NameMap Item) : NameMap Item :=
  overlay.toList.foldl
    (fun m e =>
      if m.contains e.1 then m.modify e.1 fun i => i.resolve s e.2 else m.insert e.1 e.2) base

/-- Appends imports that are not there yet. -/
def overlayImports (base overlay : List String) : List String :=
  overlay.foldl (fun is i => if is.contains i then is else is ++ [i]) base

/-- Lays a model over another. -/
def Model.merge (s : Strategy) (base overlay : Model) : Model where
  properties := base.properties.overlay s overlay.properties
  items := overlayItems s base.items overlay.items
  tasks := base.tasks.overlay s overlay.tasks
  targets := base.targets.overlay s overlay.targets
  imports := overlayImports base.imports overlay.imports

/-- Lays models over each other, beginning with the empty one. -/
def Model.compose (s : Strategy) (ms : List Model) : Model := ms.foldl (Model.merge s) {}

end BuildVocabulary

import BuildVocabulary.Schema.Entry
import BuildVocabulary.Schema.Loading

/-!
# Metadata groups

A metadata group declares metadata for several items at once. The items are listed under
`$appliesTo`; an item that does not exist yet is created. The first listed item owns the
declarations as they are written, each other one gets copies without deprecation.

* `Loading.applyGroup`: applies one group to the model;
* `Loading.applyGroups`: applies all groups of a document, in order.
-/

namespace BuildVocabulary

open Json (Location Members)

/-- The key that lists the items of a group. -/
def appliesTo : String := "$appliesTo"

/-- The name that an item carries itself. -/
def ownerName (items : NameMap Item) (name : String) : String :=
  ((items.find? name).map (·.name)).getD name

namespace Loading

/-- Creates an item unless there is one of the name, and gives the name that the item carries. -/
def claim (name : String) : Loading String := do
  change fun m => { m with items := m.items.ensure name { name } }
  look fun m => ownerName m.items name

/-- The declarations of a group, owned by one item. -/
def declarations (registry : Registry) (owner : String) (here : Location) :
    Members → Loading (List Metadata)
  | [] => pure []
  | (key, v) :: ms => do
    if key = appliesTo || isComment key then declarations registry owner here ms
    else if isDirective key then
      report (.unknownGroupDirective key here)
      declarations registry owner here ms
    else
      let m ← take (resolveMetadata registry owner (here.key key) key v)
      let decls ← declarations registry owner here ms
      pure (m :: decls)

/-- Attaches metadata to the item of a name, if there is one. Metadata of its name is reported, and
replaced. -/
def attach (owner : String) (d : Metadata) : Loading Unit := do
  match ← look (·.items.find? owner) with
  | none => pure ()
  | some i =>
    reportIf (i.metadata.contains d.name) (.metadataRedefined d.name i.name)
    change fun m => { m with items := m.items.modify owner (·.attach d) }

/-- Attaches declarations to their owner and copies of them to the other items. -/
def distribute (first : String) (others : List String) (decls : List Metadata) : Loading Unit := do
  others.forM fun owner => (decls.map (·.copyFor owner)).forM (attach owner)
  -- the first owner may be listed again, and its own declarations replace its copies
  decls.forM (attach first)

/-- Applies one group to the model. -/
def applyGroup (registry : Registry) (here : Location) (v : Json) : Loading Unit := do
  let ms ← Json.requireObject here v
  match Members.find? ms appliesTo with
  | none => report (.groupWithoutOwners here)
  | some listed =>
    match ← Json.requireStrings (here.key appliesTo) listed with
    | [] => report (.groupAppliesToNone here)
    | name :: names =>
      let first ← claim name
      let others ← names.mapM claim
      let decls ← declarations registry first here ms
      distribute first others decls

/-- Applies the groups of a section, one after the other. -/
def applyGroups (registry : Registry) (here : Location) (v : Json) : Loading Unit := do
  let vs ← Json.requireArray here v
  forElements (applyGroup registry) here 0 vs

end Loading

end BuildVocabulary

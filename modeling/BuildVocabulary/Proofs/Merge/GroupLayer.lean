import BuildVocabulary.Proofs.Load.Attachment
import BuildVocabulary.Proofs.Load.Phases
import BuildVocabulary.Proofs.Merge.Layers

/-!
# Documents of metadata groups as layers

A document with no sections but custom types and metadata groups loads to bare items: they have
metadata and nothing else of their own. Laid over another model under `union`, such an item keeps
the descriptions of the base and adds its metadata, but its kind, its custom type and its
deprecation are those of the overlay, which declares none. Groups of the same document, in contrast,
leave all of an item's own fields as they are.

* `Item.SameOwn`: two items have the same fields of their own;
* `bare_of_load`: the items of such a document;
* `Item.Regrouped`, `regrouped_union`: an item under a bare copy of it;
* `KeepsOwn`, `keepsOwn_applyGroups`: groups in one document;
* **`union_of_groups_layer`**: the whole model in both cases.
-/

namespace BuildVocabulary

open Json (Location Members)

variable {P : Finding → Prop} {registry : Registry} {here : Location} {ms : Members}
  {items items' items'' : NameMap Item} {key name : String} {i j k : Item}

/-- The items have the same fields of their own; their metadata may differ. -/
def Item.SameOwn (i j : Item) : Prop := { i with metadata := .empty } = { j with metadata := .empty }

theorem Item.SameOwn.trans (h : i.SameOwn j) (h' : j.SameOwn k) : i.SameOwn k := Eq.trans h h'

theorem sameOwn_foldl_attach (decls : List Metadata) (i : Item) :
    i.SameOwn (decls.foldl Item.attach i) := by
  rw [foldl_attach]
  rfl

/-! ## Documents with groups only -/

/-- The document has no sections but custom types and metadata groups. -/
def GroupsOnly (ms : Members) : Prop :=
  ∀ key ∈ [SectionKey.imports, SectionKey.properties, SectionKey.items, SectionKey.targets],
    ms.find? key = none

instance : DecidablePred GroupsOnly := fun ms =>
  decidable_of_iff (∀ key ∈ [SectionKey.imports, SectionKey.properties, SectionKey.items,
    SectionKey.targets], (ms.find? key).isNone = true)
    (forall₂_congr fun _ _ => Option.isNone_iff_eq_none)

/-- Groups create items of which only the name is known, and give them nothing but metadata. -/
theorem keptByGroups_bare : KeptByGroups P registry
    (fun key i => key = i.name ∧ i.SameOwn { name := key }) fun _ _ => True where
  named _ _ hi := hi.1
  created _ := ⟨rfl, rfl⟩
  attached _ _ _ hi _ := hi
  declared _ _ _ _ _ _ := trivial
  copied _ _ _ _ := trivial

theorem sectionOr_of_find?_eq_none {α : Type} (h : ms.find? key = none) (absent : α)
    (resolve : Location → Json → Resolve α) : sectionOr ms key absent resolve = pure absent := by
  rw [sectionOr, h]

/-- A document with groups only has no imports, properties, tasks and targets. Its items are bare. -/
theorem bare_of_load {o : Outcome} (hms : GroupsOnly ms) (h : load (.object ms) = .ok o) :
    o.model.properties = .empty ∧ o.model.tasks = .empty ∧ o.model.targets = .empty ∧
      o.model.imports = [] ∧ o.model.items.All fun key i => i.SameOwn { name := key } := by
  obtain ⟨_, fs, ⟨⟩, hr, -⟩ := exists_members_of_load h
  obtain ⟨_, _, _, -, htasks, -⟩ := resolveDocument_cases (gives_of_load h)
  obtain ⟨himports, -, hproperties, hitems, hgroups, htargets, -⟩ := resolveMembers_eq_ok hr
  rw [importsPhase, sectionOr_of_find?_eq_none (hms _ (by decide))] at himports
  rw [propertiesPhase, sectionOr_of_find?_eq_none (hms _ (by decide))] at hproperties
  rw [targetsPhase, sectionOr_of_find?_eq_none (hms _ (by decide))] at htargets
  have hdefined : definedItems ms = .empty := by
    rw [definedItems, itemsPhase, sectionOr_of_find?_eq_none (hms _ (by decide))]
    rfl
  have hgives : (groupsPhase ms).Gives (fun _ => True) o.model.items :=
    ⟨_, hgroups, fun _ _ => trivial⟩
  have hbare : o.model.items.All fun key i => key = i.name ∧ i.SameOwn { name := key } :=
    hgives.groups keptByGroups_bare (hdefined ▸ NameMap.All.empty)
  exact ⟨(Resolve.ok.inj hproperties).1.symm, htasks, (Resolve.ok.inj htargets).1.symm,
    (Resolve.ok.inj himports).1.symm, hbare.mono fun _ _ hi => hi.2⟩

/-! ## Groups in one document -/

/-- Every item is still there under its key, with the same fields of its own. -/
def KeepsOwn (items items' : NameMap Item) : Prop :=
  ∀ key i, (key, i) ∈ items.toList → ∃ j, (key, j) ∈ items'.toList ∧ i.SameOwn j

namespace KeepsOwn

theorem refl (items : NameMap Item) : KeepsOwn items items := fun _ i hi => ⟨i, hi, rfl⟩

theorem trans (h : KeepsOwn items items') (h' : KeepsOwn items' items'') :
    KeepsOwn items items'' := by
  intro key i hi
  obtain ⟨j, hj, hij⟩ := h key i hi
  obtain ⟨k, hk, hjk⟩ := h' key j hj
  exact ⟨k, hk, hij.trans hjk⟩

theorem attachTo (owner : String) (decls : List Metadata) (items : NameMap Item) :
    KeepsOwn items (attachTo owner decls items) := by
  intro key i hi
  have hmem := List.mem_map_of_mem
    (f := NameMap.modifyEntry owner fun i => decls.foldl Item.attach i) hi
  unfold NameMap.modifyEntry at hmem
  split_ifs at hmem
  · exact ⟨_, hmem, sameOwn_foldl_attach decls i⟩
  · exact ⟨i, hmem, rfl⟩

theorem ensureItems (names : List String) (items : NameMap Item) :
    KeepsOwn items (ensureItems names items) := by
  intro key i hi
  rw [toList_ensureItems]
  exact ⟨i, List.mem_append_left _ hi, rfl⟩

theorem distribute {first : String} {others : List String} {decls : List Metadata}
    (h : (distribute first others decls items).Gives P items') : KeepsOwn items items' := by
  rw [eq_of_distribute h]
  refine trans ?_ (attachTo first decls _)
  exact List.foldlRecOn others _ (refl items) fun m hm o _ => hm.trans (attachTo o _ m)

theorem applyGroup {v : Json} (h : (applyGroup registry here items v).Gives P items') :
    KeepsOwn items items' := by
  unfold BuildVocabulary.applyGroup at h
  rw [Resolve.gives_bind] at h
  obtain ⟨ms, -, h⟩ := h
  split at h
  next => exact (Resolve.gives_ok.mp h).1 ▸ refl items
  next =>
    rw [Resolve.gives_bind] at h
    obtain ⟨names, -, h⟩ := h
    cases names with
    | nil => exact (Resolve.gives_ok.mp h).1 ▸ refl items
    | cons name names =>
      rw [Resolve.gives_bind] at h
      obtain ⟨decls, -, h⟩ := h
      exact (ensureItems (name :: names) items).trans (distribute h)

/-- Groups of a document leave the own fields of its items as they are. -/
theorem applyGroups {n : ℕ} {vs : List Json}
    (h : (applyGroups registry here n items vs).Gives P items') : KeepsOwn items items' := by
  induction vs generalizing items n with
  | nil =>
    rw [BuildVocabulary.applyGroups, Resolve.gives_pure] at h
    exact h ▸ refl items
  | cons v vs ih =>
    rw [BuildVocabulary.applyGroups, Resolve.gives_bind] at h
    obtain ⟨between, hstep, h⟩ := h
    exact (applyGroup hstep).trans (ih h)

end KeepsOwn

/-- The groups of a document applied to other items, as if they stood in one document. -/
def groupsOver (ms : Members) (items : NameMap Item) : Resolve (NameMap Item) :=
  sectionOr ms SectionKey.groups items (resolveGroups (registryOf ms) items)

theorem keepsOwn_groupsOver (h : (groupsOver ms items).Gives P items') : KeepsOwn items items' := by
  rcases Resolve.Gives.sectionOr h with rfl | ⟨there, v, hv⟩
  · exact .refl _
  · rw [resolveGroups, Resolve.gives_bind] at hv
    obtain ⟨vs, -, hv⟩ := hv
    exact .applyGroups hv

/-- Whether groups are accepted does not depend on the items. -/
theorem accepted_groupsOver {o : Outcome} (h : load (.object ms) = .ok o) (items : NameMap Item) :
    (groupsOver ms items).Accepted := by
  have hshape : Json.Sections ms := load_accepts_iff.mp ⟨o, h⟩
  have haccepted : (groupsOver ms items).Accepted ↔ ∀ v, ms.find? SectionKey.groups = some v →
      ∃ gs, v = .array gs ∧ ∀ g ∈ gs, g.GroupShape :=
    accepted_sectionOr fun _ _ => accepted_resolveGroups
  exact haccepted.mpr hshape.groups

/-! ## Groups in a layer -/

/-- The item `j` is what stands for the item `i` under a bare copy `k`: descriptions stay, the
metadata of the copy is added, and the rest is that of an item that declares nothing. -/
structure Item.Regrouped (i k j : Item) : Prop where
  description : j.description = i.description
  includeDescription : j.includeDescription = i.includeDescription
  kind : j.kind = .unknown
  customType : j.customType = none
  deprecation : j.deprecation = {}
  metadata : ∀ name,
    j.metadata.stored? name = (k.metadata.stored? name).or (i.metadata.stored? name)

theorem regrouped_union (hk : k.SameOwn { name := key }) (i : Item) :
    i.Regrouped k (i.union k) := by
  have hdescription : k.description = none := congrArg Item.description hk
  have hinclude : k.includeDescription = none := congrArg Item.includeDescription hk
  exact {
    description := by rw [Item.union, hdescription, Option.none_or]
    includeDescription := by rw [Item.union, hinclude, Option.none_or]
    kind := congrArg Item.kind hk
    customType := congrArg Item.customType hk
    deprecation := congrArg Item.deprecation hk
    metadata := i.stored?_metadata_union k }

/-- The model `m` is what stands for `base` under a layer of bare items. -/
structure Model.GroupsLaid (base layer m : Model) : Prop where
  properties : m.properties = base.properties
  tasks : m.tasks = base.tasks
  targets : m.targets = base.targets
  imports : m.imports = base.imports
  /-- An item that no group lists is as it was. -/
  unlisted : ∀ key i, (key, i) ∈ base.items.toList → layer.items.find? key = none →
    (key, i) ∈ m.items.toList
  listed : ∀ key i k, (key, i) ∈ base.items.toList → layer.items.find? key = some k →
    ∃ j, (key, j) ∈ m.items.toList ∧ i.Regrouped k j

theorem groupsLaid_of_load {o : Outcome} (hms : GroupsOnly ms) (h : load (.object ms) = .ok o)
    (base : Model) : Model.GroupsLaid base o.model (Model.merge .union base o.model) := by
  obtain ⟨hproperties, htasks, htargets, himports, hbare⟩ := bare_of_load hms h
  have hmerged : ∀ key i, (key, i) ∈ base.items.toList →
      (Model.merge .union base o.model).items.stored? key =
        Option.merge (fun d e => (d.1, d.2.union e.2)) (some (key, i))
          (o.model.items.stored? key) := by
    intro key i hi
    have hbase : base.items.stored? key = some (key, i) :=
      NameMap.stored?_eq_some_iff.mpr ⟨hi, .refl key⟩
    exact hbase ▸ stored?_overlayItems .union base.items o.model.items key
  constructor
  case properties =>
    rw [Model.merge, hproperties]
    rfl
  case tasks =>
    rw [Model.merge, htasks]
    rfl
  case targets =>
    rw [Model.merge, htargets]
    rfl
  case imports =>
    rw [Model.merge, himports]
    rfl
  case unlisted =>
    intro key i hi hnone
    have hstored := hmerged key i hi
    rw [NameMap.find?_eq_map_stored?, Option.map_eq_none_iff] at hnone
    rw [hnone, Option.merge_none_right] at hstored
    exact (NameMap.mem_of_stored? hstored).1
  case listed =>
    intro key i k hi hk
    have hstored := hmerged key i hi
    rw [NameMap.find?_eq_map_stored?, Option.map_eq_some_iff] at hk
    obtain ⟨e, he, rfl⟩ := hk
    rw [he, Option.merge_some_some] at hstored
    have hcopy : e.2.SameOwn { name := e.1 } := hbare e (NameMap.mem_of_stored? he).1
    exact ⟨i.union e.2, (NameMap.mem_of_stored? hstored).1, regrouped_union hcopy i⟩

/-- **A fragment of groups laid over a model.** Properties, tasks, targets and imports are those of
the base, and so are the items that no group lists. A listed item keeps its descriptions and all
metadata under other names, and gets the metadata of the fragment; its kind, its custom type and its
deprecation are lost. In one document, the same groups leave all own fields of the same items as
they are. -/
theorem union_of_groups_layer {o : Outcome} (hms : GroupsOnly ms) (h : load (.object ms) = .ok o)
    (base : Model) :
    Model.GroupsLaid base o.model (Model.merge .union base o.model) ∧
    ∃ items fs, groupsOver ms base.items = .ok items fs ∧ KeepsOwn base.items items := by
  refine ⟨groupsLaid_of_load hms h base, ?_⟩
  obtain ⟨items, hitems⟩ := accepted_groupsOver h base.items
  obtain ⟨fs, hfs⟩ := hitems.exists_eq_ok
  exact ⟨items, fs, hfs, keepsOwn_groupsOver hitems⟩

/-- An item with a kind and a deprecation, and one that no group lists. -/
def typedModel : Model := (({} : Model).add (.item (({
    name := "Compile", description := some "Sources", kind := ⟨.file, .empty⟩,
    deprecation := ⟨true, some "Use Source"⟩ } : Item).attach
      { name := "Visible", item := "Compile" }))).add (.item { name := "None" })

/-- A fragment that lists an item of other models and one of its own. -/
def linkFragment : Members := [("metadata", .array [.object [
  ("$appliesTo", .array [.text "Compile", .text "Content"]), ("Link", .text "Display path")]])]

theorem union_of_groups_layer_link : GroupsOnly linkFragment ∧
    ∃ o, load (.object linkFragment) = .ok o ∧
      Model.GroupsLaid typedModel o.model (Model.merge .union typedModel o.model) ∧
      ∃ items fs, groupsOver linkFragment typedModel.items = .ok items fs ∧
        KeepsOwn typedModel.items items := by
  have hms : GroupsOnly linkFragment := by decide
  have hload : (load (.object linkFragment)).isOk = true := by decide +kernel
  obtain ⟨o, ho⟩ := exists_load_of_isOk hload
  exact ⟨hms, o, ho, union_of_groups_layer hms ho typedModel⟩

/-- The fragment erases the kind and the deprecation of the listed item. -/
theorem link_fragment_erases : GroupsOnly linkFragment ∧
    (typedModel.items.find? "Compile").map (fun i => (i.kind, i.deprecation.isDeprecated)) =
      some (⟨.file, .empty⟩, true) ∧
    ((load (.object linkFragment)).map fun o =>
      ((Model.merge .union typedModel o.model).items.find? "Compile").map fun i =>
        (i.kind, i.deprecation.isDeprecated)) = .ok (some (.unknown, false)) := by
  decide +kernel

end BuildVocabulary

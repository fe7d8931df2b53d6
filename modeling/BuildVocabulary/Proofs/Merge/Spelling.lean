import BuildVocabulary.Encoding
import BuildVocabulary.Json.Location
import BuildVocabulary.Proofs.Load.Soundness
import BuildVocabulary.Proofs.Lookup
import BuildVocabulary.Proofs.Merge.Layers
import BuildVocabulary.Proofs.Merge.Validity

/-!
# Spellings in merged models

In a loaded model every entity is stored under its name as it is spelled, so that a written model has
each entity under its own `name`. Merging keeps this for all that is replaced as a whole: the new
spelling comes with the new entity. An item of both models is resolved where it stands, under the
spelling of the base; under that key it has the name of the overlay, unless the base wins.

* `Model.Keyed`: every entity is stored under its name as it is spelled;
* `keyed_of_load`: loaded models are such;
* `keyed_encode_iff`: the same in terms of the written model;
* `keyedApartFromItems_merge`, `keyed_overlayItems_iff`: the parts of a merged model;
* **`keyed_merge_iff`**: merged models in which keys and names are the same.
-/

namespace BuildVocabulary

open Json (Location Members)

/-! ## Keys that are names -/

/-- Every value is stored under its name as it is spelled. -/
def NameMap.Keyed {α : Type} (name : α → String) (m : NameMap α) : Prop :=
  m.All fun key a => key = name a

instance {α : Type} (name : α → String) (m : NameMap α) : Decidable (m.Keyed name) :=
  inferInstanceAs (Decidable (m.All fun key a => key = name a))

namespace Model

/-- All entities but the items themselves are stored under their names. -/
structure KeyedApartFromItems (m : Model) : Prop where
  properties : m.properties.Keyed Property.name
  metadata : m.items.All fun _ i => i.metadata.Keyed Metadata.name
  tasks : m.tasks.Keyed Task.name
  targets : m.targets.Keyed Target.name

/-- Every entity is stored under its name as it is spelled. -/
structure Keyed (m : Model) : Prop extends m.KeyedApartFromItems where
  items : m.items.Keyed Item.name

instance : DecidablePred Keyed := fun m =>
  decidable_of_iff
    (m.properties.Keyed Property.name ∧ (m.items.All fun _ i => i.metadata.Keyed Metadata.name) ∧
      m.tasks.Keyed Task.name ∧ m.targets.Keyed Target.name ∧ m.items.Keyed Item.name)
    ⟨fun ⟨hp, hd, ht, hg, hi⟩ => ⟨⟨hp, hd, ht, hg⟩, hi⟩,
      fun ⟨⟨hp, hd, ht, hg⟩, hi⟩ => ⟨hp, hd, ht, hg, hi⟩⟩

theorem Coherent.keyed {m : Model} (h : m.Coherent Eq) : m.Keyed where
  properties := h.properties
  metadata := h.items.mono fun _ _ hi => hi.2.mono fun _ _ hd => hd.1
  tasks := h.tasks
  targets := h.targets
  items := h.items.mono fun _ _ hi => hi.1

end Model

theorem keyed_of_load {doc : Json} {o : Outcome} (h : load doc = .ok o) : o.model.Keyed :=
  (load_sound h).1.keyed

/-! ## Written models -/

/-- Every value under a key of an object has this key as its `name`. -/
def Json.NamesEntries (v : Json) : Prop :=
  ∀ key w, v.at? [.key key] = some w → w.at? [.key "name"] = some (.text key)

/-- In a written model, every entity is found under its own `name`. -/
structure Json.Keyed (doc : Json) : Prop where
  entities : ∀ sec ∈ ["properties", "items", "tasks", "targets"], ∀ v,
    doc.at? [.key sec] = some v → v.NamesEntries
  metadata : ∀ item v, doc.at? [.key "items", .key item, .key "metadata"] = some v →
    v.NamesEntries

namespace NameMap

variable {α : Type} {m : NameMap α} {f : α → Json} {key : String} {v : Json}

theorem at?_encode {rest : Location} : (m.encode f).at? (.key key :: rest) = some v ↔
    ∃ a, (key, a) ∈ m.toList ∧ (f a).at? rest = some v := by
  have hkeys : ((m.toMembers f).map Prod.fst).Nodup := map_fst_toMembers f ▸ m.nodup_names
  have hstep : (m.encode f).at? (.key key :: rest) =
      (Members.find? (m.toMembers f) key).bind (·.at? rest) := rfl
  rw [hstep, Option.bind_eq_some_iff]
  simp only [Members.find?, lookup_eq_some_iff_mem hkeys]
  simp only [toMembers, List.mem_map, Prod.mk.injEq]
  constructor
  · rintro ⟨w, ⟨e, he, rfl, rfl⟩, hv⟩
    exact ⟨e.2, he, hv⟩
  · rintro ⟨a, ha, hv⟩
    exact ⟨f a, ⟨(key, a), ha, rfl, rfl⟩, hv⟩

end NameMap

/-- A map whose values are written with their names. -/
theorem namesEntries_encode_iff {α : Type} {m : NameMap α} {f : α → Json} {name : α → String}
    (hname : ∀ a, (f a).at? [.key "name"] = some (.text (name a))) :
    (m.encode f).NamesEntries ↔ m.Keyed name := by
  constructor
  · intro h e he
    have hwritten := h e.1 (f e.2) (NameMap.at?_encode.mpr ⟨e.2, he, rfl⟩)
    rw [hname, Option.some.injEq, Json.text.injEq] at hwritten
    exact hwritten.symm
  · intro h key v hv
    obtain ⟨a, ha, hfa⟩ := NameMap.at?_encode.mp hv
    obtain rfl := Option.some.inj hfa
    have hkey : key = name a := h _ ha
    rw [hname, hkey]

/-- In a written model each entity is under its own `name` exactly if it is stored so. -/
theorem keyed_encode_iff {m : Model} : m.encode.Keyed ↔ m.Keyed := by
  have hproperties : (m.properties.encode Property.encode).NamesEntries ↔
      m.properties.Keyed Property.name := namesEntries_encode_iff fun _ => rfl
  have hitems : (m.items.encode Item.encode).NamesEntries ↔ m.items.Keyed Item.name :=
    namesEntries_encode_iff fun _ => rfl
  have htasks : (m.tasks.encode Task.encode).NamesEntries ↔ m.tasks.Keyed Task.name :=
    namesEntries_encode_iff fun _ => rfl
  have htargets : (m.targets.encode Target.encode).NamesEntries ↔ m.targets.Keyed Target.name :=
    namesEntries_encode_iff fun _ => rfl
  have hmetadata : ∀ i : Item, (i.metadata.encode Metadata.encode).NamesEntries ↔
      i.metadata.Keyed Metadata.name := fun i => namesEntries_encode_iff fun _ => rfl
  constructor
  · intro h
    exact {
      properties := hproperties.mp (h.entities "properties" (by decide) _ rfl)
      items := hitems.mp (h.entities "items" (by decide) _ rfl)
      tasks := htasks.mp (h.entities "tasks" (by decide) _ rfl)
      targets := htargets.mp (h.entities "targets" (by decide) _ rfl)
      metadata := fun e he => (hmetadata e.2).mp
        (h.metadata e.1 _ (NameMap.at?_encode.mpr ⟨e.2, he, rfl⟩)) }
  · intro h
    refine ⟨?_, fun item v hv => ?_⟩
    · simp only [List.forall_mem_cons, List.not_mem_nil, false_imp_iff, implies_true, and_true]
      refine ⟨?_, ?_, ?_, ?_⟩ <;> rintro v ⟨⟩
      · exact hproperties.mpr h.properties
      · exact hitems.mpr h.items
      · exact htasks.mpr h.tasks
      · exact htargets.mpr h.targets
    · obtain ⟨i, hi, hv⟩ := NameMap.at?_encode.mp hv
      obtain rfl := Option.some.inj hv
      exact (hmetadata i).mpr (h.metadata _ hi)

section Maps

variable {s : Strategy} {base layer : NameMap Item}

/-- Names of both maps that are equal ignoring case are spelled alike. -/
def SpelledAlike {α : Type} (base layer : NameMap α) : Prop :=
  ∀ a ∈ base.names, ∀ b ∈ layer.names, SameName a b → a = b

theorem NameMap.all_iff_stored? {α : Type} {Q : String → α → Prop} {m : NameMap α} :
    m.All Q ↔ ∀ n e, m.stored? n = some e → Q e.1 e.2 := by
  constructor
  · intro h n e he
    exact h e (NameMap.mem_of_stored? he).1
  · intro h e he
    exact h e.1 e (NameMap.stored?_eq_some_iff.mpr ⟨he, rfl⟩)

theorem name_resolve {i j : Item} (hs : s ≠ .preferBase) : (i.resolve s j).name = j.name := by
  cases s with
  | preferBase => exact absurd rfl hs
  | preferOverlay => rfl
  | union => rfl

theorem keyed_metadata_resolve {i j : Item} (hi : i.metadata.Keyed Metadata.name)
    (hj : j.metadata.Keyed Metadata.name) : (i.resolve s j).metadata.Keyed Metadata.name := by
  cases s with
  | preferBase => exact hi
  | preferOverlay => exact hj
  | union => exact NameMap.All.foldl_insert hi hj

/-- Items keep their names as keys exactly where no item takes another spelling of its name. -/
theorem keyed_overlayItems_iff (hb : base.Keyed Item.name) (hl : layer.Keyed Item.name) :
    (overlayItems s base layer).Keyed Item.name ↔ (s ≠ .preferBase → SpelledAlike base layer) := by
  constructor
  · intro h hs a ha b hb' hab
    obtain ⟨d, hd, rfl⟩ := List.mem_map.mp ha
    obtain ⟨e, he, rfl⟩ := List.mem_map.mp hb'
    have hd' : base.stored? d.1 = some d := NameMap.stored?_eq_some_iff.mpr ⟨hd, rfl⟩
    have he' : layer.stored? d.1 = some e := NameMap.stored?_eq_some_iff.mpr ⟨he, hab.symm⟩
    have hmerged := stored?_overlayItems s base layer d.1
    rw [hd', he', Option.merge_some_some] at hmerged
    have hkey : d.1 = (d.2.resolve s e.2).name := NameMap.all_iff_stored?.mp h _ _ hmerged
    rw [hkey, name_resolve hs]
    exact (hl e he).symm
  · intro h
    refine NameMap.all_iff_stored?.mpr fun n e he => ?_
    rw [stored?_overlayItems] at he
    cases hd : base.stored? n with
    | none =>
      rw [hd, Option.merge_none_left] at he
      exact NameMap.all_iff_stored?.mp hl _ _ he
    | some d =>
      cases he' : layer.stored? n with
      | none =>
        rw [hd, he', Option.merge_none_right] at he
        exact NameMap.all_iff_stored?.mp hb _ _ (hd.trans he)
      | some b =>
        rw [hd, he', Option.merge_some_some] at he
        obtain ⟨hdm, hdn⟩ := NameMap.mem_of_stored? hd
        obtain ⟨hbm, hbn⟩ := NameMap.mem_of_stored? he'
        obtain rfl := Option.some.inj he
        by_cases hs : s = .preferBase
        · subst hs
          exact hb d hdm
        · have hspelled : d.1 = b.1 := h hs d.1 (List.mem_map_of_mem hdm) b.1
            (List.mem_map_of_mem hbm) (hdn.trans hbn.symm)
          change d.1 = (d.2.resolve s b.2).name
          rw [name_resolve hs, hspelled]
          exact hl b hbm

end Maps

/-! ## Merged models -/

section Models

variable {s : Strategy} {base layer : Model}

theorem keyedApartFromItems_merge (hb : base.Keyed) (hl : layer.Keyed) :
    (Model.merge s base layer).KeyedApartFromItems where
  properties := hb.properties.overlay hl.properties
  metadata := hb.metadata.overlayItems hl.metadata fun _ _ _ _ _ => keyed_metadata_resolve
  tasks := hb.tasks.overlay hl.tasks
  targets := hb.targets.overlay hl.targets

/-- **Keys and names in merged models.** Two models that store every entity under its name as it is
spelled, as loaded models do, are merged into one that does the same for all entities but items. It
does so for items too, in the model as in what is written of it, exactly if the base wins or no item
of both models is spelled in two ways. -/
theorem keyed_merge_iff (s : Strategy) (hb : base.Keyed) (hl : layer.Keyed) :
    (Model.merge s base layer).KeyedApartFromItems ∧
    ((Model.merge s base layer).Keyed ↔ (s ≠ .preferBase → SpelledAlike base.items layer.items)) ∧
    ((Model.merge s base layer).encode.Keyed ↔
      (s ≠ .preferBase → SpelledAlike base.items layer.items)) := by
  have hapart : (Model.merge s base layer).KeyedApartFromItems := keyedApartFromItems_merge hb hl
  have hitems := keyed_overlayItems_iff (s := s) hb.items hl.items
  have hkeyed : (Model.merge s base layer).Keyed ↔
      (s ≠ .preferBase → SpelledAlike base.items layer.items) :=
    ⟨fun h => hitems.mp h.items, fun h => ⟨hapart, hitems.mpr h⟩⟩
  exact ⟨hapart, hkeyed, keyed_encode_iff.trans hkeyed⟩

end Models

/-- A model of one item with metadata and one property. -/
def outlined (item property : String) : Model :=
  (({} : Model).add (.item (({ name := item } : Item).attach { name := "Link", item }))).add
    (.property { name := property })

/-- A property that is spelled in two ways makes no difference. -/
theorem keyed_merge_iff_outlined : (outlined "Compile" "OutputPath").Keyed ∧
    (outlined "Compile" "OUTPUTPATH").Keyed ∧
    (Model.merge .union (outlined "Compile" "OutputPath")
      (outlined "Compile" "OUTPUTPATH")).KeyedApartFromItems ∧
    ((Model.merge .union (outlined "Compile" "OutputPath")
        (outlined "Compile" "OUTPUTPATH")).Keyed ↔
      (Strategy.union ≠ .preferBase → SpelledAlike (outlined "Compile" "OutputPath").items
        (outlined "Compile" "OUTPUTPATH").items)) ∧
    ((Model.merge .union (outlined "Compile" "OutputPath")
        (outlined "Compile" "OUTPUTPATH")).encode.Keyed ↔
      (Strategy.union ≠ .preferBase → SpelledAlike (outlined "Compile" "OutputPath").items
        (outlined "Compile" "OUTPUTPATH").items)) := by
  have hb : (outlined "Compile" "OutputPath").Keyed := by decide +kernel
  have hl : (outlined "Compile" "OUTPUTPATH").Keyed := by decide +kernel
  exact ⟨hb, hl, keyed_merge_iff .union hb hl⟩

/-- An item that is spelled in two ways stays under the old spelling and takes the new name. -/
theorem not_keyed_merge_respelled : (outlined "Compile" "OutputPath").Keyed ∧
    (outlined "COMPILE" "OutputPath").Keyed ∧
    ¬ (Model.merge .union (outlined "Compile" "OutputPath")
      (outlined "COMPILE" "OutputPath")).Keyed ∧
    (Model.merge .union (outlined "Compile" "OutputPath")
      (outlined "COMPILE" "OutputPath")).items.toList.map (fun e => (e.1, e.2.name)) =
        [("Compile", "COMPILE")] := by
  decide +kernel

end BuildVocabulary

import BuildVocabulary.Proofs.NameMap
import BuildVocabulary.Validation

/-!
# What validation checks

A model is *coherent* if its maps and its entities agree about names: an entity is stored under its
name, and metadata is owned by the item that holds it. It is *settled* if every field with a custom
type kind has a custom type.

* `Model.Coherent`: coherence for any sense in which names may agree;
* **`Model.problems_eq_nil_iff`**: a model without problems is one that is coherent ignoring case
  and settled;
* `Model.eq_unresolvedType_of_mem_problems`: a coherent model has no other problem than fields
  without their custom type.
-/

namespace BuildVocabulary

/-- A custom type kind comes with its custom type. -/
def Kind.SettledBy (k : Kind) (type : Option CustomType) : Prop :=
  k.modifiers.customType = true → type.isSome = true

/-- Each metadata instance is stored under its name, and owned by the item. -/
def Item.Coherent (same : String → String → Prop) (i : Item) : Prop :=
  i.metadata.All fun key d => same key d.name ∧ same d.item i.name

/-- Each metadata instance with a custom type kind has a custom type. -/
def Item.Settled (i : Item) : Prop :=
  i.metadata.All fun _ d => d.kind.SettledBy d.customType

namespace Model

/-- The names in a model agree: those that entities are stored under with those of the entities,
and the owners of metadata with the items that hold it. -/
structure Coherent (same : String → String → Prop) (m : Model) : Prop where
  properties : m.properties.All fun key p => same key p.name
  items : m.items.All fun key i => same key i.name ∧ i.Coherent same
  tasks : m.tasks.All fun key t => same key t.name
  targets : m.targets.All fun key t => same key t.name

/-- Every property and every metadata instance with a custom type kind has a custom type. -/
structure Settled (m : Model) : Prop where
  properties : m.properties.All fun _ p => p.kind.SettledBy p.customType
  items : m.items.All fun _ i => i.Settled

theorem Coherent.mono {same same' : String → String → Prop} {m : Model} (h : m.Coherent same)
    (hsame : ∀ a b, same a b → same' a b) : m.Coherent same' where
  properties := h.properties.mono fun _ _ => hsame _ _
  items := h.items.mono fun _ _ hi =>
    ⟨hsame _ _ hi.1, hi.2.mono fun _ _ hd => ⟨hsame _ _ hd.1, hsame _ _ hd.2⟩⟩
  tasks := h.tasks.mono fun _ _ => hsame _ _
  targets := h.targets.mono fun _ _ => hsame _ _

end Model

/-! ## Models without problems -/

theorem NameMap.keyProblems_eq_nil_iff {α : Type} {name : α → String} {m : NameMap α} :
    m.keyProblems name = [] ↔ m.All fun key a => SameName key (name a) := by
  rw [keyProblems, List.filterMap_eq_nil_iff]
  refine forall₂_congr fun e _ => ?_
  split_ifs with h <;> simp [h]

theorem typeProblem?_eq_none_iff {field : String} {kind : Kind} {type : Option CustomType} :
    typeProblem? field kind type = none ↔ kind.SettledBy type := by
  unfold typeProblem? Kind.SettledBy
  cases kind.modifiers.customType <;> cases type <;> simp

namespace Item

theorem metadataProblems_eq_nil_iff {i : Item} {d : Metadata} :
    i.metadataProblems d = [] ↔ SameName d.item i.name ∧ d.kind.SettledBy d.customType := by
  rw [metadataProblems, List.append_eq_nil_iff, Option.toList_eq_nil_iff, typeProblem?_eq_none_iff]
  refine and_congr_left fun _ => ?_
  split_ifs with h <;> simp [h]

theorem problems_eq_nil_iff {i : Item} : i.problems = [] ↔ i.Coherent SameName ∧ i.Settled := by
  simp only [problems, List.append_eq_nil_iff, NameMap.keyProblems_eq_nil_iff,
    List.flatMap_eq_nil_iff, metadataProblems_eq_nil_iff, ← NameMap.All.values]
  constructor
  · rintro ⟨hkey, hown⟩
    exact ⟨hkey.and (hown.mono fun _ _ h => h.1), hown.mono fun _ _ h => h.2⟩
  · rintro ⟨hcoh, hset⟩
    exact ⟨hcoh.mono fun _ _ h => h.1, (hcoh.mono fun _ _ h => h.2).and hset⟩

end Item

namespace Model

/-- **Validation finds nothing exactly in coherent and settled models.** -/
theorem problems_eq_nil_iff {m : Model} : m.problems = [] ↔ m.Coherent SameName ∧ m.Settled := by
  simp only [problems, List.append_eq_nil_iff, NameMap.keyProblems_eq_nil_iff,
    List.filterMap_eq_nil_iff, typeProblem?_eq_none_iff, List.flatMap_eq_nil_iff,
    Item.problems_eq_nil_iff, ← NameMap.All.values]
  constructor
  · rintro ⟨⟨⟨⟨⟨hp, hi⟩, ht⟩, hg⟩, hps⟩, his⟩
    exact ⟨⟨hp, hi.and (his.mono fun _ _ h => h.1), ht, hg⟩, hps, his.mono fun _ _ h => h.2⟩
  · rintro ⟨⟨hp, hi, ht, hg⟩, hps, his⟩
    exact ⟨⟨⟨⟨⟨hp, hi.mono fun _ _ h => h.1⟩, ht⟩, hg⟩, hps⟩, (hi.mono fun _ _ h => h.2).and his⟩

/-! ## Problems of coherent models -/

theorem eq_unresolvedType_of_typeProblem? {field : String} {kind : Kind} {type : Option CustomType}
    {p : Problem} (h : typeProblem? field kind type = some p) : p = .unresolvedType field := by
  unfold typeProblem? at h
  split_ifs at h
  exact (Option.some.inj h).symm

theorem eq_unresolvedType_of_mem_item_problems {i : Item} (hi : i.Coherent SameName) {p : Problem}
    (h : p ∈ i.problems) : ∃ field, p = .unresolvedType field := by
  have hkey : i.metadata.keyProblems (·.name) = [] :=
    NameMap.keyProblems_eq_nil_iff.mpr (hi.mono fun _ _ hd => hd.1)
  rw [Item.problems, hkey, List.nil_append, List.mem_flatMap] at h
  obtain ⟨d, hd, h⟩ := h
  have hown : SameName d.item i.name := NameMap.All.values.mp (hi.mono fun _ _ hd => hd.2) d hd
  rw [Item.metadataProblems, if_pos hown, List.nil_append, Option.mem_toList] at h
  exact ⟨_, eq_unresolvedType_of_typeProblem? h⟩

/-- A coherent model has no other problem than fields without their custom type. -/
theorem eq_unresolvedType_of_mem_problems {m : Model} (hm : m.Coherent SameName) {p : Problem}
    (h : p ∈ m.problems) : ∃ field, p = .unresolvedType field := by
  have hp : m.properties.keyProblems (·.name) = [] :=
    NameMap.keyProblems_eq_nil_iff.mpr hm.properties
  have hi : m.items.keyProblems (·.name) = [] :=
    NameMap.keyProblems_eq_nil_iff.mpr (hm.items.mono fun _ _ hi => hi.1)
  have ht : m.tasks.keyProblems (·.name) = [] := NameMap.keyProblems_eq_nil_iff.mpr hm.tasks
  have hg : m.targets.keyProblems (·.name) = [] := NameMap.keyProblems_eq_nil_iff.mpr hm.targets
  rw [problems, hp, hi, ht, hg] at h
  simp only [List.nil_append, List.mem_append, List.mem_filterMap, List.mem_flatMap] at h
  rcases h with ⟨q, -, hq⟩ | ⟨i, hmem, hq⟩
  · exact ⟨_, eq_unresolvedType_of_typeProblem? hq⟩
  · have hcoh := NameMap.All.values.mp (hm.items.mono fun _ _ hi => hi.2) i hmem
    exact eq_unresolvedType_of_mem_item_problems hcoh hq

end Model

end BuildVocabulary

import BuildVocabulary.Proofs.Validity

/-!
# Breaches of the rules

Validation lists every breach of the rules that it looks at, and nothing else. One rule it looks at
for properties and for metadata only: a custom type kind comes with its custom type. An item with
such a kind passes in any case, with or without a custom type.

* `Model.Breach`: the breaches that are listed, one constructor for each rule;
* `Model.mem_problems_iff`: they are the problems of the model;
* `Model.problems_retypeItems`: kinds and custom types of items make no difference;
* **`Model.problems_complete_iff`**: when no problem means that all rules are kept.
-/

namespace BuildVocabulary

namespace Model

/-- The breaches of the rules that validation looks at. -/
inductive Breach (m : Model) : Problem → Prop where
  | property {e : String × Property} (he : e ∈ m.properties.toList)
      (hname : ¬ SameName e.1 e.2.name) : m.Breach (.keyMismatch e.1 e.2.name)
  | item {e : String × Item} (he : e ∈ m.items.toList)
      (hname : ¬ SameName e.1 e.2.name) : m.Breach (.keyMismatch e.1 e.2.name)
  | task {e : String × Task} (he : e ∈ m.tasks.toList)
      (hname : ¬ SameName e.1 e.2.name) : m.Breach (.keyMismatch e.1 e.2.name)
  | target {e : String × Target} (he : e ∈ m.targets.toList)
      (hname : ¬ SameName e.1 e.2.name) : m.Breach (.keyMismatch e.1 e.2.name)
  | metadata {i : Item} {e : String × Metadata} (hi : i ∈ m.items.values)
      (he : e ∈ i.metadata.toList) (hname : ¬ SameName e.1 e.2.name) :
      m.Breach (.keyMismatch e.1 e.2.name)
  | owner {i : Item} {d : Metadata} (hi : i ∈ m.items.values) (hd : d ∈ i.metadata.values)
      (howner : ¬ SameName d.item i.name) : m.Breach (.ownerMismatch i.name d.name d.item)
  | propertyType {p : Property} (hp : p ∈ m.properties.values)
      (htype : ¬ p.kind.SettledBy p.customType) : m.Breach (.unresolvedType p.name)
  | metadataType {i : Item} {d : Metadata} (hi : i ∈ m.items.values) (hd : d ∈ i.metadata.values)
      (htype : ¬ d.kind.SettledBy d.customType) : m.Breach (.unresolvedType s!"{i.name}.{d.name}")

end Model

variable {p : Problem}

/-! ## Problems one by one -/

theorem NameMap.mem_keyProblems_iff {α : Type} {name : α → String} {m : NameMap α} :
    p ∈ m.keyProblems name ↔
      ∃ e ∈ m.toList, ¬ SameName e.1 (name e.2) ∧ p = .keyMismatch e.1 (name e.2) := by
  unfold keyProblems
  rw [List.mem_filterMap]
  refine exists_congr fun e => and_congr_right fun _ => ?_
  by_cases h : SameName e.1 (name e.2)
  · simp [h]
  · simp [h, eq_comm]

theorem typeProblem?_eq_some_iff {field : String} {kind : Kind} {type : Option CustomType} :
    typeProblem? field kind type = some p ↔ ¬ kind.SettledBy type ∧ p = .unresolvedType field := by
  unfold typeProblem? Kind.SettledBy
  cases kind.modifiers.customType <;> cases type <;> simp [eq_comm]

theorem Item.mem_metadataProblems_iff {i : Item} {d : Metadata} :
    p ∈ i.metadataProblems d ↔
      (¬ SameName d.item i.name ∧ p = .ownerMismatch i.name d.name d.item) ∨
        ¬ d.kind.SettledBy d.customType ∧ p = .unresolvedType s!"{i.name}.{d.name}" := by
  unfold metadataProblems
  rw [List.mem_append, Option.mem_toList, typeProblem?_eq_some_iff]
  by_cases h : SameName d.item i.name <;> simp [h]

theorem Item.mem_problems_iff {i : Item} : p ∈ i.problems ↔
    p ∈ i.metadata.keyProblems (·.name) ∨ ∃ d ∈ i.metadata.values, p ∈ i.metadataProblems d := by
  rw [problems, List.mem_append, List.mem_flatMap]

namespace Model

variable {m : Model}

/-- **Every breach is listed, and nothing else.** -/
theorem mem_problems_iff : p ∈ m.problems ↔ m.Breach p := by
  simp only [problems, List.mem_append, List.mem_filterMap, List.mem_flatMap,
    typeProblem?_eq_some_iff, Item.mem_problems_iff, NameMap.mem_keyProblems_iff,
    Item.mem_metadataProblems_iff]
  constructor
  · rintro (((((⟨e, he, hname, rfl⟩ | ⟨e, he, hname, rfl⟩) | ⟨e, he, hname, rfl⟩) |
      ⟨e, he, hname, rfl⟩) | ⟨q, hq, htype, rfl⟩) | ⟨i, hi, h⟩)
    · exact .property he hname
    · exact .item he hname
    · exact .task he hname
    · exact .target he hname
    · exact .propertyType hq htype
    · rcases h with ⟨e, he, hname, rfl⟩ | ⟨d, hd, ⟨howner, rfl⟩ | ⟨htype, rfl⟩⟩
      · exact .metadata hi he hname
      · exact .owner hi hd howner
      · exact .metadataType hi hd htype
  · intro h
    cases h with
    | property he hname => exact .inl (.inl (.inl (.inl (.inl ⟨_, he, hname, rfl⟩))))
    | item he hname => exact .inl (.inl (.inl (.inl (.inr ⟨_, he, hname, rfl⟩))))
    | task he hname => exact .inl (.inl (.inl (.inr ⟨_, he, hname, rfl⟩)))
    | target he hname => exact .inl (.inl (.inr ⟨_, he, hname, rfl⟩))
    | propertyType hq htype => exact .inl (.inr ⟨_, hq, htype, rfl⟩)
    | metadata hi he hname => exact .inr ⟨_, hi, .inl ⟨_, he, hname, rfl⟩⟩
    | owner hi hd howner => exact .inr ⟨_, hi, .inr ⟨_, hd, .inl ⟨howner, rfl⟩⟩⟩
    | metadataType hi hd htype => exact .inr ⟨_, hi, .inr ⟨_, hd, .inr ⟨htype, rfl⟩⟩⟩

/-! ## Items -/

/-- The custom type that an item's kind asks for is there. -/
def ItemsSettled (m : Model) : Prop := m.items.All fun _ i => i.kind.SettledBy i.customType

/-- All rules are kept: names and owners agree, and every custom type kind, of items too, comes with
its custom type. -/
structure Lawful (m : Model) : Prop where
  coherent : m.Coherent SameName
  settled : m.Settled
  items : m.ItemsSettled

/-- Gives items other kinds and custom types. -/
def retypeItems (kind : Item → Kind) (type : Item → Option CustomType) (m : Model) : Model :=
  { m with items := m.items.map fun i => { i with kind := kind i, customType := type i } }

theorem problems_retypeItems (kind : Item → Kind) (type : Item → Option CustomType) (m : Model) :
    (m.retypeItems kind type).problems = m.problems := by
  have hkeys : (m.retypeItems kind type).items.keyProblems (·.name) =
      m.items.keyProblems (·.name) := by
    unfold NameMap.keyProblems retypeItems NameMap.map
    rw [List.filterMap_map]
    rfl
  have hitems : (m.retypeItems kind type).items.values.flatMap Item.problems =
      m.items.values.flatMap Item.problems := by
    unfold NameMap.values retypeItems NameMap.map
    simp only [List.map_map, List.flatMap_map]
    rfl
  rw [problems, hkeys, hitems]
  rfl

/-- **What validation finds, and what it misses.** It lists exactly the breaches of the rules that
it looks at. It finds nothing in a model that keeps all rules; that it finds nothing means that all
rules are kept exactly where the rules that it looks at leave no item with a custom type kind and
no custom type. The kinds and custom types of items make no difference to what it finds. -/
theorem problems_complete_iff (m : Model) :
    (∀ p, p ∈ m.problems ↔ m.Breach p) ∧
    (m.Lawful → m.problems = []) ∧
    ((m.problems = [] ↔ m.Lawful) ↔
      (m.Coherent SameName → m.Settled → m.ItemsSettled)) ∧
    ∀ kind type, (m.retypeItems kind type).problems = m.problems := by
  have hsound : m.Lawful → m.problems = [] := fun h =>
    problems_eq_nil_iff.mpr ⟨h.coherent, h.settled⟩
  refine ⟨fun p => mem_problems_iff, hsound, ?_, fun kind type => problems_retypeItems kind type m⟩
  constructor
  · intro hcomplete hcoherent hsettled
    have hnone : m.problems = [] := problems_eq_nil_iff.mpr ⟨hcoherent, hsettled⟩
    exact (hcomplete.mp hnone).items
  · intro hitems
    refine ⟨fun hnone => ?_, hsound⟩
    obtain ⟨hcoherent, hsettled⟩ := problems_eq_nil_iff.mp hnone
    exact ⟨hcoherent, hsettled, hitems hcoherent hsettled⟩

/-- An item with the kind of custom types and no custom type. -/
def untypedWidget : Model := ({} : Model).add (.item { name := "Widget", kind := .ofCustomType })

theorem not_lawful_untypedWidget : untypedWidget.problems = [] ∧ ¬ untypedWidget.Lawful := by
  refine ⟨by decide +kernel, fun h => ?_⟩
  have hsettled := h.items ("Widget", { name := "Widget", kind := .ofCustomType })
    List.mem_cons_self rfl
  cases hsettled

end Model

end BuildVocabulary

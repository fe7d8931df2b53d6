import BuildVocabulary.Proofs.Merge.Layers
import BuildVocabulary.Proofs.NameMap.Agreement
import BuildVocabulary.Validation

/-!
# Models that agree

Two models agree if they differ in the order of names alone: in their maps, and in the metadata of
each item. Nothing that is done with models depends on more than that: models that agree merge to
models that agree, hold equal entities under each name, and have the same problems.

* `Item.agrees_iff_reordered`, `Model.agrees_iff_reordered`: agreement as another order of entries;
* `Model.equivalence_agrees`: agreement is an equivalence;
* `Item.Agrees.resolve`, `Model.Agrees.merge`: items and models that are merged;
* `Model.Agrees.find?`, `Model.Agrees.problems_perm`: lookups and validation;
* **`agreement_congruence`**: these facts together.
-/

namespace BuildVocabulary

open NameMap (SameEntry)

/-! ## Items -/

namespace Item

variable {i i' j j' k : Item} {s : Strategy}

/-- The same item with its metadata in some order. -/
def Reordered (i j : Item) : Prop :=
  { i with metadata := .empty } = { j with metadata := .empty } ∧
    i.metadata.toList.Perm j.metadata.toList

theorem agrees_iff_reordered : i.Agrees j ↔ i.Reordered j :=
  and_congr_right fun _ => NameMap.agrees_eq_iff_perm

namespace Agrees

theorem refl (i : Item) : i.Agrees i := ⟨rfl, .refl (fun _ => rfl) i.metadata⟩

theorem symm (h : i.Agrees j) : j.Agrees i := ⟨h.1.symm, h.2.symm Eq.symm⟩

theorem trans (h : i.Agrees j) (h' : j.Agrees k) : i.Agrees k :=
  ⟨h.1.trans h'.1, h.2.trans Eq.trans h'.2⟩

theorem name_eq (h : i.Agrees j) : i.name = j.name := by
  have hname := congrArg Item.name h.1
  exact hname

theorem find?_metadata (h : i.Agrees j) (name : String) :
    i.metadata.find? name = j.metadata.find? name := by
  rcases NameMap.rel_iff.mp (h.2.find? name) with ⟨hi, hj⟩ | ⟨d, e, hi, hj, hde⟩
  · rw [hi, hj]
  · rw [hi, hj, hde]

/-- Own fields of a union come from own fields, and metadata is laid over metadata. -/
theorem union (hi : i.Agrees i') (hj : j.Agrees j') : (i.union j).Agrees (i'.union j') := by
  constructor
  · have hown (i j : Item) : { i.union j with metadata := .empty } =
        ({ i with metadata := .empty } : Item).union { j with metadata := .empty } := rfl
    rw [hown, hi.1, hj.1, ← hown]
  · exact NameMap.lays_insert.agrees_foldl (fun _ _ _ _ _ he => he) hi.2 hj.2

theorem resolve (hi : i.Agrees i') (hj : j.Agrees j') :
    (i.resolve s j).Agrees (i'.resolve s j') := by
  cases s with
  | preferBase => exact hi
  | preferOverlay => exact hj
  | union => exact hi.union hj

end Agrees

end Item

/-! ## Maps of models -/

section Maps

variable {α : Type} {s : Strategy}

theorem NameMap.Agrees.overlay {eq : α → α → Prop} {base base' layer layer' : NameMap α}
    (hb : base.Agrees eq base') (hl : layer.Agrees eq layer') :
    (base.overlay s layer).Agrees eq (base'.overlay s layer') := by
  refine (lays_overlay s).agrees_foldl (fun d d' e e' hd he => ?_) hb hl
  unfold Strategy.choose
  split_ifs
  · exact hd
  · exact he

theorem NameMap.Agrees.overlayItems {base base' layer layer' : NameMap Item}
    (hb : base.Agrees Item.Agrees base') (hl : layer.Agrees Item.Agrees layer') :
    (overlayItems s base layer).Agrees Item.Agrees (overlayItems s base' layer') :=
  (lays_overlayItems s).agrees_foldl (fun _ _ _ _ hd he => ⟨hd.1, hd.2.resolve he.2⟩) hb hl

theorem NameMap.Agrees.keyProblems_perm {eq : α → α → Prop} {name : α → String}
    {m n : NameMap α} (h : m.Agrees eq n) (hname : ∀ a b, eq a b → name a = name b) :
    (m.keyProblems name).Perm (n.keyProblems name) := by
  unfold NameMap.keyProblems
  rw [List.filterMap_eq_flatMap_toList, List.filterMap_eq_flatMap_toList]
  refine h.flatMap_perm fun d e hsame => ?_
  rw [hsame.1, hname _ _ hsame.2]

theorem NameMap.Agrees.flatMap_values_perm {β : Type} {eq : α → α → Prop} {m n : NameMap α}
    {f : α → List β} (h : m.Agrees eq n) (hf : ∀ a b, eq a b → (f a).Perm (f b)) :
    (m.values.flatMap f).Perm (n.values.flatMap f) := by
  unfold NameMap.values
  rw [List.flatMap_map, List.flatMap_map]
  exact h.flatMap_perm fun d e hsame => hf d.2 e.2 hsame.2

end Maps

theorem Item.Agrees.problems_perm {i j : Item} (h : i.Agrees j) : i.problems.Perm j.problems := by
  have hmetadata : i.metadataProblems = j.metadataProblems := by
    funext d
    unfold Item.metadataProblems
    rw [h.name_eq]
  unfold Item.problems
  rw [hmetadata]
  exact (h.2.keyProblems_perm fun _ _ => congrArg Metadata.name).append
    (h.2.flatMap_values_perm fun _ _ heq => heq ▸ .refl _)

/-! ## Models -/

/-- Entities are equal up to the order of metadata. -/
inductive Entity.Agrees : Entity → Entity → Prop where
  | property (p : Property) : Agrees (.property p) (.property p)
  | item {i j : Item} (h : i.Agrees j) : Agrees (.item i) (.item j)
  | task (t : Task) : Agrees (.task t) (.task t)
  | target (t : Target) : Agrees (.target t) (.target t)

namespace Model

/-- The same model with the entries of its maps, and the metadata of its items, in some order. -/
structure Reordered (m n : Model) : Prop where
  properties : m.properties.toList.Perm n.properties.toList
  items : m.items.Reordered Item.Reordered n.items
  tasks : m.tasks.toList.Perm n.tasks.toList
  targets : m.targets.toList.Perm n.targets.toList
  imports : m.imports = n.imports

variable {a a' b b' l m n : Model} {s : Strategy}

theorem agrees_iff_reordered : m.Agrees n ↔ m.Reordered n := by
  have hitem : Item.Agrees = Item.Reordered := by
    funext i j
    exact propext Item.agrees_iff_reordered
  unfold Agrees
  rw [NameMap.agrees_eq_iff_perm, NameMap.agrees_eq_iff_perm, NameMap.agrees_eq_iff_perm,
    NameMap.agrees_iff_reordered, hitem]
  exact ⟨fun ⟨hp, hi, ht, hg, his⟩ => ⟨hp, hi, ht, hg, his⟩,
    fun ⟨hp, hi, ht, hg, his⟩ => ⟨hp, hi, ht, hg, his⟩⟩

theorem equivalence_agrees : Equivalence Agrees where
  refl _ := ⟨.refl (fun _ => rfl) _, .refl .refl _, .refl (fun _ => rfl) _, .refl (fun _ => rfl) _,
    rfl⟩
  symm h := ⟨h.1.symm Eq.symm, h.2.1.symm .symm, h.2.2.1.symm Eq.symm, h.2.2.2.1.symm Eq.symm,
    h.2.2.2.2.symm⟩
  trans h h' := ⟨h.1.trans Eq.trans h'.1, h.2.1.trans .trans h'.2.1,
    h.2.2.1.trans Eq.trans h'.2.2.1, h.2.2.2.1.trans Eq.trans h'.2.2.2.1,
    h.2.2.2.2.trans h'.2.2.2.2⟩

theorem Agrees.merge (ha : a.Agrees a') (hb : b.Agrees b') :
    (Model.merge s a b).Agrees (Model.merge s a' b') := by
  obtain ⟨hp, hi, ht, hg, his⟩ := ha
  obtain ⟨hp', hi', ht', hg', his'⟩ := hb
  exact ⟨hp.overlay hp', hi.overlayItems hi', ht.overlay ht', hg.overlay hg',
    congrArg₂ overlayImports his his'⟩

/-- Models that agree hold equal entities under each name, in any spelling. -/
theorem Agrees.find? (h : m.Agrees n) (sec : Section) (name : String) :
    Option.Rel Entity.Agrees (m.find? sec name) (n.find? sec name) := by
  obtain ⟨hp, hi, ht, hg, -⟩ := h
  cases sec with
  | properties => exact NameMap.rel_map (hp.find? name) fun p _ heq => heq ▸ .property p
  | items => exact NameMap.rel_map (hi.find? name) fun _ _ => .item
  | tasks => exact NameMap.rel_map (ht.find? name) fun t _ heq => heq ▸ .task t
  | targets => exact NameMap.rel_map (hg.find? name) fun t _ heq => heq ▸ .target t

theorem Agrees.find?_metadata (h : m.Agrees n) (item name : String) :
    (m.items.find? item).bind (·.metadata.find? name) =
      (n.items.find? item).bind (·.metadata.find? name) := by
  rcases NameMap.rel_iff.mp (h.2.1.find? item) with ⟨hm, hn⟩ | ⟨i, j, hm, hn, hij⟩
  · rw [hm, hn]
  · rw [hm, hn]
    exact hij.find?_metadata name

theorem Agrees.problems_perm (h : m.Agrees n) : m.problems.Perm n.problems := by
  obtain ⟨hp, hi, ht, hg, -⟩ := h
  unfold problems
  rw [List.filterMap_eq_flatMap_toList, List.filterMap_eq_flatMap_toList]
  exact (((((hp.keyProblems_perm fun _ _ => congrArg Property.name).append
    (hi.keyProblems_perm fun _ _ => Item.Agrees.name_eq)).append
    (ht.keyProblems_perm fun _ _ => congrArg Task.name)).append
    (hg.keyProblems_perm fun _ _ => congrArg Target.name)).append
    (hp.flatMap_values_perm fun _ _ heq => heq ▸ .refl _)).append
    (hi.flatMap_values_perm fun _ _ => Item.Agrees.problems_perm)

end Model

/-- **Agreement is a congruence.** Two models agree exactly if the entries of their maps, and the
metadata of their items, are the same in some order, in the same spellings, and their imports are the
same in the same order. Agreement is an equivalence. Models that agree, merged with models that
agree, give models that agree, by every strategy; they hold equal entities under each name in any
spelling, down to the metadata of items; and validation finds the same problems up to order. -/
theorem agreement_congruence :
    (∀ m n : Model, m.Agrees n ↔ m.Reordered n) ∧
    Equivalence Model.Agrees ∧
    (∀ (s : Strategy) (a a' b b' : Model), a.Agrees a' → b.Agrees b' →
      (Model.merge s a b).Agrees (Model.merge s a' b')) ∧
    ∀ m n : Model, m.Agrees n →
      (∀ sec name, Option.Rel Entity.Agrees (m.find? sec name) (n.find? sec name)) ∧
      (∀ item name, (m.items.find? item).bind (·.metadata.find? name) =
        (n.items.find? item).bind (·.metadata.find? name)) ∧
      m.problems.Perm n.problems :=
  ⟨fun _ _ => Model.agrees_iff_reordered, Model.equivalence_agrees,
    fun _ _ _ _ _ => Model.Agrees.merge,
    fun _ _ h => ⟨h.find?, h.find?_metadata, h.problems_perm⟩⟩

/-- A model of items with these names, each with these metadata fields, owned by another item. -/
def shelved (items fields : List String) : Model where
  items := .ofList (items.map fun name => (name, {
    name, metadata := .ofList (fields.map fun field => (field, { name := field, item := "None" })) }))

/-- Items and fields in two orders; one item of both models is spelled in two ways. -/
theorem agreement_congruence_shelved :
    let a := shelved ["Compile", "Content"] ["Link", "Visible"]
    let a' := shelved ["Content", "Compile"] ["Visible", "Link"]
    let b := shelved ["compile", "Page"] ["Link", "Pack"]
    let b' := shelved ["Page", "compile"] ["Pack", "Link"]
    a.Agrees a' ∧ b.Agrees b' ∧ a ≠ a' ∧ b ≠ b' ∧
      (Model.merge .union a b).Agrees (Model.merge .union a' b') ∧
      Option.Rel Entity.Agrees (a.find? .items "COMPILE") (a'.find? .items "COMPILE") ∧
      (a.items.find? "content").bind (·.metadata.find? "LINK") =
        (a'.items.find? "content").bind (·.metadata.find? "LINK") ∧
      a.problems.Perm a'.problems := by
  intro a a' b b'
  have ha : a.Agrees a' := by decide +kernel
  have hb : b.Agrees b' := by decide +kernel
  have hne : a ≠ a' ∧ b ≠ b' := by decide +kernel
  obtain ⟨-, -, hmerge, hsame⟩ := agreement_congruence
  obtain ⟨hfind, hmetadata, hproblems⟩ := hsame a a' ha
  exact ⟨ha, hb, hne.1, hne.2, hmerge .union a a' b b' ha hb, hfind .items "COMPILE",
    hmetadata "content" "LINK", hproblems⟩

end BuildVocabulary

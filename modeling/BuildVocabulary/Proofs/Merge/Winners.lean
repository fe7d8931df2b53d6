import BuildVocabulary.Proofs.Catalog.Load
import BuildVocabulary.Proofs.Merge.Layers

/-!
# Winners of a composition

What a composition of any number of models holds under a name, said of the list of models at once:
the first one that has the name wins under `preferBase`, the last one under the other strategies.
Under `union` an item is put together from all its copies.

* `Item.UnionOf copies i`: the item is put together from these copies; `Item.UnionOf.concat`: one
  more copy;
* `Model.ComposedOf s ms m`: names, entities, order and imports of a composition;
* `Model.find?_compose_first`, `Model.find?_compose_last`, `Model.unionOf_compose`,
  `Model.keys_compose`, `Model.imports_compose`: each of these by induction on the list;
* **`winners_of_composition`**: compositions, and the catalogs that are composed.
-/

namespace BuildVocabulary

/-! ## Combined items -/

namespace Item

/-- The item is put together from these copies: its own fields are those of the last copy, except
that both descriptions and the metadata of each name are those of the last copy that has them. -/
structure UnionOf (copies : List Item) (i : Item) : Prop where
  own : ∃ last, copies.getLast? = some last ∧ i.name = last.name ∧ i.kind = last.kind ∧
    i.customType = last.customType ∧ i.deprecation = last.deprecation
  description : i.description = copies.reverse.findSome? (·.description)
  includeDescription : i.includeDescription = copies.reverse.findSome? (·.includeDescription)
  metadata : ∀ name, i.metadata.find? name = copies.reverse.findSome? (·.metadata.find? name)
  order : i.metadata.keys = (copies.flatMap (·.metadata.keys)).eraseDups

variable {copies : List Item} {i : Item}

theorem UnionOf.singleton (i : Item) : UnionOf [i] i where
  own := ⟨i, rfl, rfl, rfl, rfl, rfl⟩
  description := by cases h : i.description <;> simp [h]
  includeDescription := by cases h : i.includeDescription <;> simp [h]
  metadata name := by cases h : i.metadata.find? name <;> simp [h]
  order := by
    rw [List.flatMap_singleton]
    exact (eraseDups_of_nodup i.metadata.keys_nodup).symm

theorem find?_metadata_union (i j : Item) (name : String) :
    (i.union j).metadata.find? name = (j.metadata.find? name).or (i.metadata.find? name) := by
  simp only [NameMap.find?_eq_map_stored?, stored?_metadata_union, Option.map_or]

/-- One more copy is laid over the item that the others make up. -/
theorem UnionOf.concat (h : UnionOf copies i) (j : Item) : UnionOf (copies ++ [j]) (i.union j) where
  own := ⟨j, List.getLast?_concat, rfl, rfl, rfl, rfl⟩
  description := by
    rw [List.reverse_concat, List.findSome?_cons, ← h.description]
    cases hj : j.description <;> simp [union, hj]
  includeDescription := by
    rw [List.reverse_concat, List.findSome?_cons, ← h.includeDescription]
    cases hj : j.includeDescription <;> simp [union, hj]
  metadata name := by
    rw [List.reverse_concat, List.findSome?_cons, ← h.metadata, find?_metadata_union]
    cases j.metadata.find? name <;> rfl
  order := by
    have hkeys : (i.union j).metadata.keys = j.metadata.keys.foldl addNew i.metadata.keys :=
      NameMap.lays_insert.keys_foldl i.metadata j.metadata
    rw [hkeys, h.order, foldl_addNew_eraseDups, List.flatMap_append, List.flatMap_singleton]

end Item

namespace Model

/-- The names, entities, order and imports of a composition of models. -/
structure ComposedOf (s : Strategy) (ms : List Model) (m : Model) : Prop where
  present : ∀ sec name,
    (m.find? sec name).isSome = true ↔ ∃ f ∈ ms, (f.find? sec name).isSome = true
  first : s = .preferBase → ∀ sec name, m.find? sec name = ms.findSome? (·.find? sec name)
  last : s ≠ .preferBase → ∀ sec name, (s = .union → sec ≠ .items) →
    m.find? sec name = ms.reverse.findSome? (·.find? sec name)
  union : s = .union → ∀ name i, m.items.find? name = some i →
    i.UnionOf (ms.filterMap (·.items.find? name))
  order : ∀ sec, m.keys sec = (ms.flatMap (·.keys sec)).eraseDups
  imports : m.imports = (ms.flatMap (·.imports)).eraseDups

variable {s : Strategy} {ms : List Model} {m : Model} {sec : Section} {name : String}

/-! ## Compositions, model by model -/

theorem compose_concat (s : Strategy) (ms : List Model) (m : Model) :
    compose s (ms ++ [m]) = merge s (compose s ms) m := by
  rw [compose, List.foldl_append]
  rfl

theorem find?_empty : ({} : Model).find? sec name = none := by
  cases sec <;> rfl

theorem find?_compose_first :
    (compose .preferBase ms).find? sec name = ms.findSome? (·.find? sec name) := by
  induction ms using List.reverseRecOn with
  | nil => exact find?_empty
  | append_singleton ms m ih =>
    rw [compose_concat, find?_merge_first, ih, List.findSome?_append, List.findSome?_singleton]

theorem find?_compose_last (hs : s ≠ .preferBase) (hsec : s = .union → sec ≠ .items) :
    (compose s ms).find? sec name = ms.reverse.findSome? (·.find? sec name) := by
  induction ms using List.reverseRecOn with
  | nil => exact find?_empty
  | append_singleton ms m ih =>
    rw [compose_concat, find?_merge_last hs hsec, ih, List.reverse_concat, List.findSome?_cons]
    cases m.find? sec name <;> rfl

theorem keys_compose : (compose s ms).keys sec = (ms.flatMap (·.keys sec)).eraseDups := by
  induction ms using List.reverseRecOn with
  | nil => cases sec <;> rfl
  | append_singleton ms m ih =>
    rw [compose_concat, keys_merge, ih, foldl_addNew_eraseDups, List.flatMap_append,
      List.flatMap_singleton]

theorem isSome_find?_compose :
    ((compose s ms).find? sec name).isSome = true ↔
      ∃ f ∈ ms, (f.find? sec name).isSome = true := by
  simp only [isSome_find?_iff, keys_compose, List.mem_eraseDups, List.mem_flatMap]

theorem copies_eq_nil_of_find?_compose (h : (compose s ms).items.find? name = none) :
    ms.filterMap (·.items.find? name) = [] := by
  refine List.filterMap_eq_nil_iff.mpr fun m hm => Option.eq_none_iff_forall_ne_some.mpr ?_
  intro i hi
  have hsome : ((compose s ms).find? .items name).isSome = true :=
    isSome_find?_compose.mpr ⟨m, hm, by rw [find?, hi]; rfl⟩
  rw [find?, h] at hsome
  cases hsome

theorem unionOf_compose {i : Item} (h : (compose .union ms).items.find? name = some i) :
    i.UnionOf (ms.filterMap (·.items.find? name)) := by
  induction ms using List.reverseRecOn generalizing i with
  | nil => cases h
  | append_singleton ms m ih =>
    rw [compose_concat, find?_merge_union] at h
    rw [List.filterMap_append, List.filterMap_cons, List.filterMap_nil]
    cases hm : m.items.find? name with
    | none =>
      rw [hm, Option.merge_none_right] at h
      rw [List.append_nil]
      exact ih h
    | some j =>
      cases hc : (compose .union ms).items.find? name with
      | none =>
        -- this copy is the first one
        rw [hm, hc, Option.merge_none_left] at h
        rw [copies_eq_nil_of_find?_compose hc]
        exact Option.some.inj h ▸ .singleton j
      | some k =>
        rw [hm, hc, Option.merge_some_some] at h
        exact Option.some.inj h ▸ (ih hc).concat j

theorem imports_compose : (compose s ms).imports = (ms.flatMap (·.imports)).eraseDups := by
  induction ms using List.reverseRecOn with
  | nil => rfl
  | append_singleton ms m ih =>
    have himports : (merge s (compose s ms) m).imports =
        m.imports.foldl addNew (compose s ms).imports := overlayImports_eq _ _
    rw [compose_concat, himports, ih, foldl_addNew_eraseDups, List.flatMap_append,
      List.flatMap_singleton]

theorem composedOf_compose (s : Strategy) (ms : List Model) : ComposedOf s ms (compose s ms) where
  present _ _ := isSome_find?_compose
  first hs _ _ := by
    subst hs
    exact find?_compose_first
  last hs _ _ hsec := find?_compose_last hs hsec
  union hs _ _ h := by
    subst hs
    exact unionOf_compose h
  order _ := keys_compose
  imports := imports_compose

end Model

/-- **Who wins in a composition.** For every strategy and every list of models, the composition
holds under each name what the first or the last model has there, or the union of all copies of an
item; names and imports stand in order of first appearance. A catalog loads if and only if it lists
files that all load, and then gives this composition; else it fails with the first fatal error. -/
theorem winners_of_composition :
    (∀ (s : Strategy) (ms : List Model), Model.ComposedOf s ms (Model.compose s ms)) ∧
    ∀ (c : Catalog) (files : Files) (directory : String),
      (∀ o, c.load files directory = .ok o ↔ c.schemas ≠ [] ∧ ∃ os : List Outcome,
        List.Forall₂ (fun path out => loadPath files path = .ok out) (c.paths directory) os ∧
        o.model = Model.compose c.merge (os.map (·.model)) ∧
        o.files = ((c.paths directory).zip os).map fun f => ⟨f.1, f.2.diagnostics⟩) ∧
      ∀ e, c.load files directory = .error e ↔ (c.schemas = [] ∧ e = .noSchemas) ∨
        ∃ pre path post, c.paths directory = pre ++ path :: post ∧
          (∀ p ∈ pre, ∃ out, loadPath files p = .ok out) ∧ loadPath files path = .error e :=
  ⟨Model.composedOf_compose, fun _ _ _ =>
    ⟨fun _ => Catalog.load_eq_ok_iff, fun _ => Catalog.load_eq_error_iff⟩⟩

end BuildVocabulary

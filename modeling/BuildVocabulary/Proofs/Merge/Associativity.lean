import BuildVocabulary.Json.Printer
import BuildVocabulary.Proofs.Catalog.Load
import BuildVocabulary.Proofs.Merge.Layers

/-!
# Merging is associative

Models may be merged in any grouping, by every strategy: not only the entities come out the same,
but also their order and spellings, the metadata of items, and the imports. With the empty model as
right unit, a composition can be cut anywhere.

* `Item.resolve_assoc`: items of one name;
* `Model.merge_assoc`, `Model.merge_empty`: whole models;
* `Model.compose_append`: compositions of lists that are put together;
* **`merge_assoc_load_split`**: merges of three models, and catalogs that are cut in two.
-/

namespace BuildVocabulary

/-! ## Entries and imports -/

theorem NameMap.overlay_assoc {α : Type} (s : Strategy) (a b c : NameMap α) :
    (a.overlay s b).overlay s c = a.overlay s (b.overlay s c) := by
  refine (lays_overlay s).foldl_assoc (fun d e f => ?_) a b c
  unfold Strategy.choose
  split_ifs <;> rfl

/-- Under `union`, descriptions fall back in turn and metadata is laid over in turn. -/
theorem Item.union_assoc (i j k : Item) : (i.union j).union k = i.union (j.union k) := by
  have hmeta := NameMap.lays_insert.foldl_assoc (fun _ _ _ => rfl) i.metadata j.metadata k.metadata
  simp only [Item.union, Option.or_assoc, hmeta]

theorem Item.resolve_assoc (s : Strategy) (i j k : Item) :
    (i.resolve s j).resolve s k = i.resolve s (j.resolve s k) := by
  cases s with
  | preferBase => rfl
  | preferOverlay => rfl
  | union => exact Item.union_assoc i j k

theorem overlayItems_assoc (s : Strategy) (a b c : NameMap Item) :
    overlayItems s (overlayItems s a b) c = overlayItems s a (overlayItems s b c) := by
  refine (lays_overlayItems s).foldl_assoc (fun d e f => ?_) a b c
  rw [Item.resolve_assoc]

theorem overlayImports_assoc (a b c : List String) :
    overlayImports (overlayImports a b) c = overlayImports a (overlayImports b c) := by
  simp only [overlayImports_eq]
  exact (foldl_addNew_assoc a b c).symm

/-! ## Models -/

namespace Model

theorem merge_assoc (s : Strategy) (a b c : Model) :
    merge s (merge s a b) c = merge s a (merge s b c) := by
  simp only [merge, NameMap.overlay_assoc, overlayItems_assoc, overlayImports_assoc]

theorem merge_empty (s : Strategy) (m : Model) : merge s m {} = m := rfl

theorem compose_append (s : Strategy) (ms ns : List Model) :
    compose s (ms ++ ns) = merge s (compose s ms) (compose s ns) := by
  have hassoc : Std.Associative (merge s) := ⟨merge_assoc s⟩
  have hfold : ns.foldl (merge s) (merge s (compose s ms) {}) =
      merge s (compose s ms) (ns.foldl (merge s) {}) := List.foldl_assoc
  rw [merge_empty] at hfold
  rw [compose, List.foldl_append]
  exact hfold

end Model

/-! ## Catalogs -/

namespace Catalog

variable {c : Catalog} {files : Files} {directory : String}

/-- Catalogs that list the files of one after those of the other compose to the merged model. -/
theorem load_append {l₁ l₂ : List String} {o o₁ o₂ : Composition}
    (h₁ : { c with schemas := l₁ }.load files directory = .ok o₁)
    (h₂ : { c with schemas := l₂ }.load files directory = .ok o₂)
    (h : { c with schemas := l₁ ++ l₂ }.load files directory = .ok o) :
    o.model = Model.merge c.merge o₁.model o₂.model ∧ o.files = o₁.files ++ o₂.files := by
  obtain ⟨-, os₁, hos₁, hmodel₁, hfiles₁⟩ := load_eq_ok_iff.mp h₁
  obtain ⟨-, os₂, hos₂, hmodel₂, hfiles₂⟩ := load_eq_ok_iff.mp h₂
  obtain ⟨-, os, hos, hmodel, hfiles⟩ := load_eq_ok_iff.mp h
  have hpaths : ({ c with schemas := l₁ ++ l₂ } : Catalog).paths directory =
      ({ c with schemas := l₁ } : Catalog).paths directory ++
        ({ c with schemas := l₂ } : Catalog).paths directory := List.map_append
  rw [hpaths] at hos hfiles
  have heq : os = os₁ ++ os₂ := by
    rw [← mapM_eq_ok_iff] at hos
    have happ := mapM_eq_ok_iff.mpr (List.rel_append hos₁ hos₂)
    rw [happ] at hos
    exact (Except.ok.inj hos).symm
  subst heq
  constructor
  · rw [hmodel, List.map_append, Model.compose_append, hmodel₁, hmodel₂]
  · rw [hfiles, List.zip_append hos₁.length_eq, List.map_append, hfiles₁, hfiles₂]

end Catalog

/-- **Merging is associative, and compositions can be cut anywhere.** For every strategy the two
groupings of three models give the identical model. So the composition of a catalog whose files all
load is the composition of its first files merged with the composition of the rest, with the
diagnostics of the former before those of the latter. -/
theorem merge_assoc_load_split :
    (∀ (s : Strategy) (a b c : Model),
      Model.merge s (Model.merge s a b) c = Model.merge s a (Model.merge s b c)) ∧
    ∀ (c : Catalog) (files : Files) (directory : String) (k : Nat),
      (∀ path ∈ c.paths directory, ∃ out, loadPath files path = .ok out) →
      1 ≤ k → k < c.schemas.length →
        ∃ o o₁ o₂, c.load files directory = .ok o ∧
          { c with schemas := c.schemas.take k }.load files directory = .ok o₁ ∧
          { c with schemas := c.schemas.drop k }.load files directory = .ok o₂ ∧
          o.model = Model.merge c.merge o₁.model o₂.model ∧ o.files = o₁.files ++ o₂.files := by
  refine ⟨Model.merge_assoc, fun c files directory k hall hpos hlt => ?_⟩
  have hne : c.schemas ≠ [] := by
    intro h
    simp [h] at hlt
  have htake : c.schemas.take k ≠ [] := by
    simp only [ne_eq, List.take_eq_nil_iff, not_or]
    exact ⟨by omega, hne⟩
  have hdrop : c.schemas.drop k ≠ [] := by
    simp only [ne_eq, List.drop_eq_nil_iff]
    omega
  have hpart : ∀ l : List String, l ⊆ c.schemas →
      ∀ path ∈ ({ c with schemas := l } : Catalog).paths directory,
        ∃ out, loadPath files path = .ok out :=
    fun l hl path hpath => hall path (List.map_subset _ hl hpath)
  obtain ⟨o, ho⟩ := Catalog.exists_load_of_forall hne hall
  obtain ⟨o₁, ho₁⟩ := Catalog.exists_load_of_forall (c := { c with schemas := c.schemas.take k })
    htake (hpart _ (List.take_subset _ _))
  obtain ⟨o₂, ho₂⟩ := Catalog.exists_load_of_forall (c := { c with schemas := c.schemas.drop k })
    hdrop (hpart _ (List.drop_subset _ _))
  have hwhole : { c with schemas := c.schemas.take k ++ c.schemas.drop k }.load files directory =
      .ok o := by
    rw [List.take_append_drop]
    exact ho
  exact ⟨o, o₁, o₂, ho, ho₁, ho₂, Catalog.load_append ho₁ ho₂ hwhole⟩

/-- Three files about one item in three spellings, each with metadata of its own. -/
def layeredFiles : Files := Files.ofTexts
  (([("sdk.json", "Compile", "Link"), ("package.json", "COMPILE", "LINK"),
    ("project.json", "compile", "Visible")] : List (String × String × String)).map
    fun (path, item, field) => (path, Json.compact (.object [("items", .object [
      (item, .object [("description", .text path),
        ("metadata", .object [(field, .text "Display path")])])])])))

/-- The catalog of these files. -/
def layeredCatalog : Catalog :=
  { version := "1.0", schemas := ["sdk.json", "package.json", "project.json"] }

theorem merge_assoc_load_split_layered :
    (∀ path ∈ layeredCatalog.paths "", ∃ out, loadPath layeredFiles path = .ok out) ∧
    1 ≤ 2 ∧ 2 < layeredCatalog.schemas.length ∧
    ∃ o o₁ o₂, layeredCatalog.load layeredFiles "" = .ok o ∧
      { layeredCatalog with schemas := layeredCatalog.schemas.take 2 }.load layeredFiles "" =
        .ok o₁ ∧
      { layeredCatalog with schemas := layeredCatalog.schemas.drop 2 }.load layeredFiles "" =
        .ok o₂ ∧
      o.model = Model.merge .union o₁.model o₂.model ∧ o.files = o₁.files ++ o₂.files := by
  have hok : ∀ path ∈ layeredCatalog.paths "", (loadPath layeredFiles path).isOk = true := by
    decide +kernel
  have hall : ∀ path ∈ layeredCatalog.paths "", ∃ out, loadPath layeredFiles path = .ok out := by
    intro path hpath
    have hp := hok path hpath
    cases h : loadPath layeredFiles path with
    | ok out => exact ⟨out, rfl⟩
    | error e =>
      rw [h] at hp
      cases hp
  have hlen : 2 < layeredCatalog.schemas.length := by decide
  exact ⟨hall, by decide, hlen,
    merge_assoc_load_split.2 layeredCatalog layeredFiles "" 2 hall (by decide) hlen⟩

end BuildVocabulary

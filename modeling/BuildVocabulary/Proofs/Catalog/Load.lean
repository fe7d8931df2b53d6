import BuildVocabulary.Catalog
import Mathlib.Data.List.Forall2

/-!
# What loading a catalog gives

The listed files are loaded in order. The first one that cannot be loaded fails the catalog;
otherwise their models are composed.

* `mapM_eq_ok_iff`, `mapM_eq_error_iff`: both ways for a loop over a list to end;
* **`Catalog.load_eq_ok_iff`**, **`Catalog.load_eq_error_iff`**: the same for a catalog.
-/

namespace BuildVocabulary

/-! ## Loops that stop at an error -/

section Loop

variable {ε α β : Type} {f : α → Except ε β} {xs : List α}

theorem mapM_cons_ok {x : α} {y : β} (hy : f x = .ok y) :
    (x :: xs).mapM f = (y :: ·) <$> xs.mapM f := by
  rw [List.mapM_cons, hy]
  change (xs.mapM f >>= fun ys => pure (y :: ys)) = _
  rw [bind_pure_comp]

theorem mapM_cons_error {x : α} {e : ε} (he : f x = .error e) : (x :: xs).mapM f = .error e := by
  rw [List.mapM_cons, he]
  rfl

theorem map_eq_ok_iff {γ : Type} {g : β → γ} {r : Except ε β} {c : γ} :
    g <$> r = .ok c ↔ ∃ b, r = .ok b ∧ g b = c := by
  cases r with
  | error e => exact ⟨nofun, nofun⟩
  | ok b =>
    change Except.ok (g b) = .ok c ↔ _
    simp

theorem map_eq_error_iff {γ : Type} {g : β → γ} {r : Except ε β} {e : ε} :
    g <$> r = .error e ↔ r = .error e := by
  cases r with
  | error d =>
    change Except.error d = .error e ↔ _
    simp
  | ok b => exact ⟨nofun, nofun⟩

theorem mapM_eq_ok_iff {ys : List β} :
    xs.mapM f = .ok ys ↔ List.Forall₂ (fun x y => f x = .ok y) xs ys := by
  induction xs generalizing ys with
  | nil =>
    rw [List.mapM_nil, List.forall₂_nil_left_iff]
    change Except.ok [] = .ok ys ↔ _
    rw [Except.ok.injEq, eq_comm]
  | cons x xs ih =>
    cases hx : f x with
    | error e =>
      rw [mapM_cons_error hx, List.forall₂_cons_left_iff]
      exact ⟨nofun, fun ⟨_, _, h, _⟩ => by rw [hx] at h; cases h⟩
    | ok y =>
      rw [mapM_cons_ok hx, map_eq_ok_iff, List.forall₂_cons_left_iff]
      constructor
      · rintro ⟨zs, hzs, rfl⟩
        exact ⟨y, zs, hx, ih.mp hzs, rfl⟩
      · rintro ⟨z, zs, hz, hzs, rfl⟩
        rw [hx] at hz
        cases hz
        exact ⟨zs, ih.mpr hzs, rfl⟩

theorem mapM_eq_error_iff {e : ε} :
    xs.mapM f = .error e ↔ ∃ pre x post, xs = pre ++ x :: post ∧
      (∀ p ∈ pre, ∃ y, f p = .ok y) ∧ f x = .error e := by
  induction xs with
  | nil => exact ⟨nofun, fun ⟨pre, x, post, h, _⟩ => absurd h.symm (by simp)⟩
  | cons x xs ih =>
    cases hx : f x with
    | error d =>
      rw [mapM_cons_error hx]
      constructor
      · intro h
        cases h
        exact ⟨[], x, xs, rfl, nofun, hx⟩
      · rintro ⟨pre, z, post, hsplit, hpre, hz⟩
        cases pre with
        | nil =>
          cases hsplit
          rw [hx] at hz
          cases hz
          rfl
        | cons p pre =>
          cases hsplit
          obtain ⟨y, hy⟩ := hpre x List.mem_cons_self
          rw [hx] at hy
          cases hy
    | ok y =>
      rw [mapM_cons_ok hx, map_eq_error_iff, ih]
      constructor
      · rintro ⟨pre, z, post, rfl, hpre, hz⟩
        exact ⟨x :: pre, z, post, rfl, List.forall_mem_cons.mpr ⟨⟨y, hx⟩, hpre⟩, hz⟩
      · rintro ⟨pre, z, post, hsplit, hpre, hz⟩
        cases pre with
        | nil =>
          cases hsplit
          rw [hx] at hz
          cases hz
        | cons p pre =>
          cases hsplit
          exact ⟨pre, z, post, rfl, fun q hq => hpre q (List.mem_cons_of_mem _ hq), hz⟩

/-- Pairs of each element with its value. -/
theorem mapM_pair (f : α → Except ε β) (xs : List α) :
    (xs.mapM fun x => (x, ·) <$> f x) = (xs.zip ·) <$> xs.mapM f := by
  induction xs with
  | nil => rfl
  | cons x xs ih =>
    cases hx : f x with
    | error e => rw [mapM_cons_error hx, mapM_cons_error (by rw [hx]; rfl)]; rfl
    | ok y =>
      rw [mapM_cons_ok hx, mapM_cons_ok (y := (x, y)) (by rw [hx]; rfl), ih]
      cases xs.mapM f <;> rfl

theorem exists_mem_zip_of_forall₂ {γ : Type} {R : α → γ → Prop} {zs : List γ} {z : γ}
    (h : List.Forall₂ R xs zs) (hz : z ∈ zs) : ∃ x, (x, z) ∈ xs.zip zs ∧ R x z := by
  have hsnd : (xs.zip zs).map Prod.snd = zs := List.map_snd_zip (Nat.le_of_eq h.length_eq.symm)
  rw [← hsnd] at hz
  obtain ⟨⟨x, z⟩, hmem, rfl⟩ := List.mem_map.mp hz
  exact ⟨x, hmem, List.forall₂_zip h hmem⟩

end Loop

/-! ## Catalogs -/

/-- The files that hold these texts. -/
def Files.ofTexts (texts : List (String × String)) : Files := fun path =>
  match texts.lookup path with
  | some text => .ok text.toUTF8.data.toList
  | none => .error .notFound

theorem exists_load_of_loadPath {files : Files} {path : String} {o : Outcome}
    (h : loadPath files path = .ok o) : ∃ doc, load doc = .ok o := by
  unfold loadPath at h
  split at h
  · unfold loadBytes at h
    split at h
    next doc _ => exact ⟨doc, h⟩
    next => cases h
  · cases h
  · cases h

namespace Catalog

variable {c : Catalog} {files : Files} {directory : String} {o : Composition}

theorem load_of_schemas_eq_nil (h : c.schemas = []) :
    c.load files directory = .error .noSchemas := by
  rw [load, h]
  rfl

theorem load_of_schemas_ne_nil (h : c.schemas ≠ []) :
    c.load files directory =
      (fun os => Composition.ofOutcomes c.merge ((c.paths directory).zip os)) <$>
        (c.paths directory).mapM (loadPath files) := by
  have hne : c.schemas.isEmpty = false := by simpa using h
  rw [load, hne, mapM_pair, Functor.map_map]
  rfl

theorem ofOutcomes_model {s : Strategy} {paths : List String} {os : List Outcome}
    (h : paths.length = os.length) :
    (Composition.ofOutcomes s (paths.zip os)).model = Model.compose s (os.map (·.model)) := by
  have hzip : (paths.zip os).map Prod.snd = os := List.map_snd_zip (Nat.le_of_eq h.symm)
  have hmodels : (paths.zip os).map (·.2.model) = ((paths.zip os).map Prod.snd).map (·.model) := by
    rw [List.map_map]
    rfl
  rw [Composition.ofOutcomes, hmodels, hzip]

/-- **A catalog loads if it lists files and each of them loads.** Then it gives the composition of
their models in the listed order, with the diagnostics of each file. -/
theorem load_eq_ok_iff :
    c.load files directory = .ok o ↔ c.schemas ≠ [] ∧ ∃ os : List Outcome,
      List.Forall₂ (fun path out => loadPath files path = .ok out) (c.paths directory) os ∧
      o.model = Model.compose c.merge (os.map (·.model)) ∧
      o.files = ((c.paths directory).zip os).map fun f => ⟨f.1, f.2.diagnostics⟩ := by
  by_cases hne : c.schemas = []
  · rw [load_of_schemas_eq_nil hne]
    exact ⟨nofun, fun h => absurd hne h.1⟩
  rw [load_of_schemas_ne_nil hne, map_eq_ok_iff]
  simp only [mapM_eq_ok_iff]
  constructor
  · rintro ⟨os, hos, rfl⟩
    exact ⟨hne, os, hos, ofOutcomes_model hos.length_eq, rfl⟩
  · rintro ⟨-, os, hos, hmodel, hfiles⟩
    refine ⟨os, hos, ?_⟩
    cases o
    rw [← ofOutcomes_model hos.length_eq] at hmodel
    cases hmodel
    cases hfiles
    rfl

/-- **A catalog fails where it lists nothing, or with its first file that does not load.** -/
theorem load_eq_error_iff {e : LoadError} :
    c.load files directory = .error e ↔ (c.schemas = [] ∧ e = .noSchemas) ∨
      ∃ pre path post, c.paths directory = pre ++ path :: post ∧
        (∀ p ∈ pre, ∃ out, loadPath files p = .ok out) ∧ loadPath files path = .error e := by
  by_cases hne : c.schemas = []
  · have hpaths : c.paths directory = [] := by rw [paths, hne, List.map_nil]
    rw [load_of_schemas_eq_nil hne, hpaths, Except.error.injEq]
    constructor
    · rintro rfl
      exact .inl ⟨hne, rfl⟩
    · rintro (⟨-, rfl⟩ | ⟨pre, path, post, h, -⟩)
      · rfl
      · exact absurd h (by simp)
  · rw [load_of_schemas_ne_nil hne, map_eq_error_iff, mapM_eq_error_iff]
    exact ⟨.inr, fun h => h.resolve_left fun h => hne h.1⟩

theorem exists_load_of_forall (hne : c.schemas ≠ [])
    (h : ∀ path ∈ c.paths directory, ∃ out, loadPath files path = .ok out) :
    ∃ o, c.load files directory = .ok o := by
  cases ho : c.load files directory with
  | ok o => exact ⟨o, rfl⟩
  | error e =>
    rcases load_eq_error_iff.mp ho with ⟨hnil, -⟩ | ⟨pre, path, post, hpaths, -, he⟩
    · exact absurd hnil hne
    · have hmem : path ∈ c.paths directory := by simp [hpaths]
      obtain ⟨out, hout⟩ := h path hmem
      rw [he] at hout
      cases hout

end Catalog

end BuildVocabulary

import BuildVocabulary.Proofs.Load.Sections
import BuildVocabulary.Proofs.Load.Shape
import BuildVocabulary.Proofs.Resolve
import BuildVocabulary.Proofs.Merge.Winners

/-!
# Imports of merged models

The imports of an overlay are appended unless they are there, so each of them comes once. The imports
of the base are taken as they are, and a document may list an import twice: what is repeated in the
base stays repeated. A composition begins with the empty model, which has nothing to repeat.

* `load_importing`: a document gives its list of imports as it stands;
* `imports_merge_eq_append`: the imports of the base, then the new ones;
* **`imports_merge_iff`**: where merged imports are the first occurrences of all imports.
-/

namespace BuildVocabulary

/-! ## Documents of imports -/

/-- A document that lists imports and nothing else. -/
def importing (imports : List String) : Json :=
  .object [(SectionKey.imports, .array (imports.map .text))]

/-- Loading keeps every import where it stands, repeated ones too. -/
theorem load_importing (imports : List String) :
    load (importing imports) = .ok ⟨{ imports }, []⟩ := by
  have htexts (here : Json.Location) :
      Json.requireTexts here 0 (imports.map .text) = .ok imports :=
    Json.requireTexts_eq_ok.mpr rfl
  have himports (here : Json.Location) :
      resolveImports here (.array (imports.map .text)) = .ok imports [] := by
    unfold resolveImports Json.requireArray
    rw [Resolve.lift_ok_bind, htexts]
    rfl
  have hfound : Json.Members.find? [(SectionKey.imports, .array (imports.map .text))]
      SectionKey.imports = some (.array (imports.map .text)) := rfl
  rw [load_eq, importing, resolveDocument, resolveMembers, sectionOr, hfound]
  simp only [himports]
  rfl

/-! ## Merged imports -/

namespace Model

variable {s : Strategy} {base layer : Model}

theorem imports_merge_eq_foldl :
    (merge s base layer).imports = layer.imports.foldl addNew base.imports :=
  overlayImports_eq base.imports layer.imports

theorem imports_merge_eq_append : (merge s base layer).imports =
    base.imports ++ (layer.imports.removeAll base.imports).eraseDups := by
  rw [imports_merge_eq_foldl, foldl_addNew_eq_append]

theorem nodup_imports_merge_iff : (merge s base layer).imports.Nodup ↔ base.imports.Nodup := by
  rw [imports_merge_eq_foldl, nodup_foldl_addNew_iff]

theorem imports_merge_eq_eraseDups_iff :
    (merge s base layer).imports = (base.imports ++ layer.imports).eraseDups ↔
      base.imports.Nodup := by
  rw [imports_merge_eq_foldl, foldl_addNew_eq_eraseDups_iff]

theorem nodup_imports_compose (s : Strategy) (ms : List Model) :
    (compose s ms).imports.Nodup := by
  rw [imports_compose]
  exact nodup_eraseDups _

end Model

/-- **Imports of merged models.** They are the imports of the base as they stand, and then the first
occurrences of those that the base does not have. They are pairwise distinct exactly if those of the
base are, and exactly then they are the first occurrences in both lists together. A document may
list any imports, repeated ones too, and loads with them as they stand; a composition of models has
no import twice. -/
theorem imports_merge_iff (s : Strategy) (base layer : Model) :
    (Model.merge s base layer).imports =
      base.imports ++ (layer.imports.removeAll base.imports).eraseDups ∧
    ((Model.merge s base layer).imports.Nodup ↔ base.imports.Nodup) ∧
    ((Model.merge s base layer).imports = (base.imports ++ layer.imports).eraseDups ↔
      base.imports.Nodup) ∧
    (∀ imports, load (importing imports) = .ok ⟨{ imports }, []⟩) ∧
    ∀ ms : List Model, (Model.compose s ms).imports.Nodup :=
  ⟨Model.imports_merge_eq_append, Model.nodup_imports_merge_iff,
    Model.imports_merge_eq_eraseDups_iff, load_importing, Model.nodup_imports_compose s⟩

/-- An import that the base lists twice comes twice. -/
theorem repeated_import_stays :
    load (importing ["Sdk", "Sdk"]) = .ok ⟨{ imports := ["Sdk", "Sdk"] }, []⟩ ∧
    load (importing ["Web"]) = .ok ⟨{ imports := ["Web"] }, []⟩ ∧
    (Model.merge .union { imports := ["Sdk", "Sdk"] } { imports := ["Web"] }).imports =
      ["Sdk", "Sdk", "Web"] ∧
    ¬ (Model.merge .union { imports := ["Sdk", "Sdk"] } { imports := ["Web"] }).imports.Nodup ∧
    (Model.merge .union { imports := ["Sdk", "Sdk"] } { imports := ["Web"] }).imports ≠
      (["Sdk", "Sdk"] ++ ["Web"]).eraseDups := by
  decide +kernel

end BuildVocabulary

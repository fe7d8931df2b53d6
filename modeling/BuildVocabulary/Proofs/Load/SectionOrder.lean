import BuildVocabulary.Proofs.Load.Sections
import BuildVocabulary.Proofs.Lookup

/-!
# The order of sections

A document is loaded section by section, in a fixed order. Sections are found by their keys, so the
order of the keys in the document shows in nothing but the warnings about unknown ones.

* `unknownKeyWarnings`: these warnings, which stand in front of all other diagnostics;
* `resolveMembers_congr`: documents whose keys have the same values;
* **`load_perm`**: documents that differ in the order of their keys only.
-/

namespace BuildVocabulary

open Json (Location Members)

variable {ms ms' : Members}

/-! ## Warnings about unknown keys -/

/-- The warnings about unknown keys at the top of a document, in the order of the keys. -/
def unknownKeyWarnings (ms : Members) : Diagnostics :=
  (ms.keys.filter (· ∉ SectionKey.known)).map fun key =>
    ⟨.warning, s!"unknown top-level key '{key}'"⟩

theorem map_diagnostic_topLevelFindings :
    (topLevelFindings ms).map Finding.diagnostic = unknownKeyWarnings ms := by
  have hkeys : (ms.keys.filter fun key => !SectionKey.known.contains key) =
      ms.keys.filter (· ∉ SectionKey.known) := by
    refine List.filter_congr fun key _ => ?_
    rw [List.contains_eq_mem, decide_not]
  rw [topLevelFindings, unknownKeyWarnings, List.map_map, hkeys]
  rfl

theorem unknownKeyWarnings_perm (h : ms.Perm ms') :
    (unknownKeyWarnings ms).Perm (unknownKeyWarnings ms') :=
  ((h.map Prod.fst).filter _).map _

/-! ## Sections by their keys -/

theorem sectionOr_congr {key : String} (h : ms.find? key = ms'.find? key) {α : Type} (absent : α)
    (resolve : Location → Json → Resolve α) :
    sectionOr ms key absent resolve = sectionOr ms' key absent resolve := by
  rw [sectionOr, sectionOr, h]

/-- Documents whose known keys have the same values resolve alike after their leading findings. -/
theorem resolveMembers_congr_of_known (h : ∀ key ∈ SectionKey.known, ms.find? key = ms'.find? key) :
    ∃ rest : Resolve Model, resolveMembers ms = rest.after (topLevelFindings ms) ∧
      resolveMembers ms' = rest.after (topLevelFindings ms') := by
  have himports := h SectionKey.imports (by decide)
  have htypes := h SectionKey.customTypes (by decide)
  have hproperties := h SectionKey.properties (by decide)
  have hitems := h SectionKey.items (by decide)
  have hgroups := h SectionKey.groups (by decide)
  have htargets := h SectionKey.targets (by decide)
  -- `rest` is what follows the leading findings of `ms`; it reads `ms` by lookups alone
  refine ⟨_, rfl, ?_⟩
  rw [resolveMembers, Resolve.ok_bind]
  simp only [sectionOr_congr himports, sectionOr_congr htypes, sectionOr_congr hproperties,
    sectionOr_congr hitems, sectionOr_congr hgroups, sectionOr_congr htargets]

theorem resolveMembers_congr (h : ∀ key, ms.find? key = ms'.find? key) :
    ∃ rest : Resolve Model, resolveMembers ms = rest.after (topLevelFindings ms) ∧
      resolveMembers ms' = rest.after (topLevelFindings ms') :=
  resolveMembers_congr_of_known fun key _ => h key

/-! ## Loading -/

/-- The warnings about unknown keys stand in front of what the sections report. -/
theorem load_object_of_ok {model : Model} {fs : List Finding}
    (h : resolveMembers ms = .ok model (topLevelFindings ms ++ fs)) :
    load (.object ms) = .ok ⟨model, unknownKeyWarnings ms ++ fs.map Finding.diagnostic⟩ := by
  rw [load_eq, resolveDocument, h, Resolve.outcome, List.map_append, map_diagnostic_topLevelFindings]

theorem load_object_of_fail {e : LoadError} (h : resolveMembers ms = .fail e) :
    load (.object ms) = .error e := by
  rw [load_eq, resolveDocument, h, Resolve.outcome]

/-- **The order of sections does not matter.** Documents with the same keys and values in another
order fail with the same error, or load with the same model and the same diagnostics after the
warnings about unknown keys, which follow the order of the keys. -/
theorem load_perm (hkeys : ms.keys.Nodup) (h : ms.Perm ms') :
    (unknownKeyWarnings ms).Perm (unknownKeyWarnings ms') ∧
      ((∃ e, load (.object ms) = .error e ∧ load (.object ms') = .error e) ∨
        ∃ model rest, load (.object ms) = .ok ⟨model, unknownKeyWarnings ms ++ rest⟩ ∧
          load (.object ms') = .ok ⟨model, unknownKeyWarnings ms' ++ rest⟩) := by
  refine ⟨unknownKeyWarnings_perm h, ?_⟩
  obtain ⟨rest, hms, hms'⟩ := resolveMembers_congr fun key => lookup_perm hkeys h key
  cases rest with
  | ok model fs => exact .inr ⟨model, _, load_object_of_ok hms, load_object_of_ok hms'⟩
  | fail e => exact .inl ⟨e, load_object_of_fail hms, load_object_of_fail hms'⟩

/-- Fields before the types that they refer to, between keys that are no sections. -/
def scatteredMembers : Members := [
  ("zeta", .null),
  ("metadata", .array [.object [("$appliesTo", .text "compile"), ("Link", .text "Display path")]]),
  ("items", .object [("Compile", .object [("metadata", .object [
    ("Tint", .object [("type", .text "@Color")])])])]),
  ("customTypes", .object [("Color", .array [.text "Red", .text "RED"])]),
  ("alpha", .bool true)]

theorem load_perm_scattered : scatteredMembers.keys.Nodup ∧
    scatteredMembers.Perm scatteredMembers.reverse ∧
    (unknownKeyWarnings scatteredMembers).Perm (unknownKeyWarnings scatteredMembers.reverse) ∧
    ∃ model rest,
      load (.object scatteredMembers) =
        .ok ⟨model, unknownKeyWarnings scatteredMembers ++ rest⟩ ∧
      load (.object scatteredMembers.reverse) =
        .ok ⟨model, unknownKeyWarnings scatteredMembers.reverse ++ rest⟩ := by
  have hkeys : scatteredMembers.keys.Nodup := by decide
  have hperm : scatteredMembers.Perm scatteredMembers.reverse :=
    scatteredMembers.reverse_perm.symm
  have hloads : (load (.object scatteredMembers)).isOk = true := by decide +kernel
  obtain ⟨hwarnings, ⟨e, he, -⟩ | hsame⟩ := load_perm hkeys hperm
  · rw [he] at hloads
    cases hloads
  · exact ⟨hkeys, hperm, hwarnings, hsame⟩

end BuildVocabulary

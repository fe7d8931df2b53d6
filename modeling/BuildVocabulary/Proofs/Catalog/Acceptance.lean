import BuildVocabulary.CommandLine.Run
import BuildVocabulary.Proofs.Catalog.Load
import BuildVocabulary.Proofs.Load.Soundness
import BuildVocabulary.Proofs.Merge.Validity

/-!
# Accepted catalogs

A catalog is judged by the diagnostics of its files alone; what validation says of the composed
model is printed, but not looked at. It need not be: a file without errors loads as a clean model,
and merging keeps models clean.

* `Model.Clean`: validation finds nothing, and no item has a custom type kind;
* `Model.Clean.compose`, `clean_of_load`: composed and loaded models;
* `clean_of_accepts`: the composed model of an accepted catalog;
* **`accepted_catalog_clean`**: the same with what the command line prints.
-/

namespace BuildVocabulary

/-! ## Clean models -/

namespace Model

/-- Validation finds nothing, and no item has a custom type kind. -/
structure Clean (m : Model) : Prop where
  problems : m.problems = []
  items : m.items.All fun _ i => ¬ i.kind.IsCustomType

namespace Clean

variable {s : Strategy} {base layer : Model} {ms : List Model}

theorem empty : ({} : Model).Clean := ⟨by decide, NameMap.All.empty⟩

/-- A resolved item has the kind of one of the two items. -/
theorem not_isCustomType_resolve {i j : Item} (hi : ¬ i.kind.IsCustomType)
    (hj : ¬ j.kind.IsCustomType) : ¬ (i.resolve s j).kind.IsCustomType := by
  cases s with
  | preferBase => exact hi
  | preferOverlay => exact hj
  | union => exact hj

theorem merge (hb : base.Clean) (hl : layer.Clean) : (Model.merge s base layer).Clean where
  problems := problems_merge hb.problems hl.problems
  items := hb.items.overlayItems hl.items fun _ _ _ _ _ hi hj => not_isCustomType_resolve hi hj

theorem compose (h : ∀ m ∈ ms, m.Clean) : (Model.compose s ms).Clean := by
  unfold Model.compose
  exact List.foldlRecOn ms _ empty fun _ hb m hm => hb.merge (h m hm)

end Clean

end Model

/-! ## Files without errors -/

theorem clean_of_load {doc : Json} {o : Outcome} (h : load doc = .ok o)
    (hd : o.diagnostics.hasErrors = false) : o.model.Clean := by
  have hbenign := gives_benign_of_load h hd
  have hsame : o.model.Coherent SameName :=
    (coherent_of_resolveDocument hbenign).mono fun _ _ hab => congrArg fold hab
  obtain ⟨hsettled, hitems⟩ := settled_of_resolveDocument hbenign
  exact ⟨Model.problems_eq_nil_iff.mpr ⟨hsame, hsettled⟩, hitems⟩

/-! ## Accepted compositions -/

namespace Catalog

variable {c : Catalog} {files : Files} {directory : String} {o : Composition}

theorem hasErrors_of_accepts (h : c.accepts o = true) :
    ∀ f ∈ o.files, f.diagnostics.hasErrors = false := by
  have hcount : o.errorCount = 0 := by
    rw [accepts, Bool.and_eq_true, beq_iff_eq] at h
    exact h.1
  intro f hf
  have hnone : ∀ d ∈ f.diagnostics, ¬ decide (d.severity = .error) = true := by
    rw [Composition.errorCount, Diagnostics.errorCount, Diagnostics.countOf,
      List.countP_eq_zero] at hcount
    exact fun d hd => hcount d (List.mem_flatMap.mpr ⟨f, hf, hd⟩)
  have hzero : f.diagnostics.errorCount = 0 := List.countP_eq_zero.mpr hnone
  rw [Diagnostics.hasErrors, hzero]
  rfl

theorem clean_of_accepts (h : c.load files directory = .ok o) (ha : c.accepts o = true) :
    o.model.Clean := by
  obtain ⟨-, os, hos, hmodel, hfiles⟩ := load_eq_ok_iff.mp h
  rw [hmodel]
  refine Model.Clean.compose fun m hm => ?_
  obtain ⟨out, hout, rfl⟩ := List.mem_map.mp hm
  obtain ⟨path, hpair, hload⟩ := exists_mem_zip_of_forall₂ hos hout
  obtain ⟨doc, hdoc⟩ := exists_load_of_loadPath hload
  -- the diagnostics of this file are among those that the judgement counts
  have hfile : ⟨path, out.diagnostics⟩ ∈ o.files := by
    rw [hfiles]
    exact List.mem_map.mpr ⟨(path, out), hpair, rfl⟩
  exact clean_of_load hdoc (hasErrors_of_accepts ha _ hfile)

end Catalog

/-! ## What the command line prints -/

namespace Command

variable {files : Files} {path : String}

theorem exit_eq_zero_iff {r : Report} : r.ending.exit = 0 ↔ r.failure = none := by
  unfold Report.ending
  cases r.failure <;> simp

theorem runCatalog_cases (h : (runCatalog files path).failure = none) :
    ∃ c o, Catalog.readPath files path = .ok c ∧ c.load files (Path.parent path) = .ok o ∧
      c.accepts o = true ∧ (runCatalog files path).lines = compositionLines path o := by
  unfold runCatalog at h ⊢
  split at h
  · cases h
  next c hc =>
    split at h
    · cases h
    next o ho =>
      have ha : c.accepts o = true := by
        cases hacc : c.accepts o with
        | true => rfl
        | false => rw [hacc] at h; cases h
      exact ⟨c, o, hc, ho, ha, rfl⟩

theorem compositionLines_of_clean {o : Composition} (h : o.model.Clean) :
    compositionLines path o =
      o.files.flatMap (fun f => diagnosticLines f.path f.diagnostics) ++ [summary o] := by
  rw [compositionLines, h.problems, List.map_nil, List.append_nil]

end Command

/-- **Accepted catalogs are clean.** In the composed model of an accepted catalog validation finds
nothing and no item has a custom type kind. So where the command line succeeds with a catalog, it
has printed the diagnostics of the files and the summary, and no problem of the composed model. -/
theorem accepted_catalog_clean (files : Files) :
    (∀ (c : Catalog) (directory : String) (o : Composition), c.load files directory = .ok o →
      c.accepts o = true →
        o.model.problems = [] ∧ ∀ i ∈ o.model.items.values, ¬ i.kind.IsCustomType) ∧
    ∀ (arguments : List String) (path : String),
      Command.ofArguments arguments = .ok (.catalog path) →
      (runArguments files arguments).exit = 0 →
        ∃ c o, Catalog.readPath files path = .ok c ∧ c.load files (Path.parent path) = .ok o ∧
          c.accepts o = true ∧ o.model.problems = [] ∧
          (runArguments files arguments).output = String.join
            ((o.files.flatMap (fun f => diagnosticLines f.path f.diagnostics) ++
              [Command.summary o]).map (· ++ "\n")) := by
  refine ⟨fun c directory o h ha => ?_, fun arguments path harg hexit => ?_⟩
  · have hclean := Catalog.clean_of_accepts h ha
    exact ⟨hclean.problems, NameMap.All.values.mp hclean.items⟩
  · have hrun : runArguments files arguments = (Command.runCatalog files path).ending := by
      rw [runArguments, harg]
      rfl
    rw [hrun, Command.exit_eq_zero_iff] at hexit
    obtain ⟨c, o, hc, ho, ha, hlines⟩ := Command.runCatalog_cases hexit
    have hclean := Catalog.clean_of_accepts ho ha
    rw [Command.compositionLines_of_clean hclean] at hlines
    refine ⟨c, o, hc, ho, ha, hclean.problems, ?_⟩
    rw [hrun, Report.ending, hexit, hlines]

/-- A catalog of two files that declare one item, the second one with a warning. -/
def paletteFiles : Files := Files.ofTexts [
  ("schemas.yml", "version: x\nschemas: [types.json, items.json]\n"),
  ("types.json", Json.compact (.object [
    ("customTypes", .object [("Color", .array [.text "Red"])]),
    ("items", .object [("Compile", .object [("metadata", .object [
      ("Tint", .object [("type", .text "@color-list")])])])])])),
  ("items.json", Json.compact (.object [
    ("metadata", .array [.object [("$appliesTo", .text "compile"), ("Link", .text "Path")]]),
    ("remarks", .null)]))]

theorem accepted_catalog_clean_palette :
    Command.ofArguments ["catalog", "schemas.yml"] = .ok (.catalog "schemas.yml") ∧
    (runArguments paletteFiles ["catalog", "schemas.yml"]).exit = 0 ∧
    ∃ c o, Catalog.readPath paletteFiles "schemas.yml" = .ok c ∧
      c.load paletteFiles (Path.parent "schemas.yml") = .ok o ∧ c.accepts o = true ∧
      o.model.problems = [] ∧ (∀ i ∈ o.model.items.values, ¬ i.kind.IsCustomType) ∧
      (runArguments paletteFiles ["catalog", "schemas.yml"]).output = String.join
        ((o.files.flatMap (fun f => diagnosticLines f.path f.diagnostics) ++
          [Command.summary o]).map (· ++ "\n")) := by
  have harg : Command.ofArguments ["catalog", "schemas.yml"] = .ok (.catalog "schemas.yml") := by
    decide +kernel
  have hexit : (runArguments paletteFiles ["catalog", "schemas.yml"]).exit = 0 := by
    decide +kernel
  obtain ⟨c, o, hc, ho, ha, hproblems, hout⟩ :=
    (accepted_catalog_clean paletteFiles).2 _ _ harg hexit
  have hclean := (accepted_catalog_clean paletteFiles).1 c _ o ho ha
  exact ⟨harg, hexit, c, o, hc, ho, ha, hproblems, hclean.2, hout⟩

end BuildVocabulary

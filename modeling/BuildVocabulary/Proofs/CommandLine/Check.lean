import BuildVocabulary.Proofs.Catalog.Acceptance

/-!
# Checks and catalogs agree

A check goes through all of its files and counts those that fail. A catalog stops at the first file
that does not load, and otherwise counts the diagnostics of all files together. Both judge in the
same way.

* `Objectionable`, `Failing`: diagnostics that fail a file, and files that fail;
* `noteLine`, `Reported`: the lines about a file, of which `letter?` tells the kind;
* `diagnosticLines_eq_map`: one line for each diagnostic, in their order;
* `reported_checkPath`, `checkPath_snd_iff`: one file of a check;
* `exists_accepted_iff`: the same files in a catalog;
* **`check_agrees_with_catalog`**: the lines of a check, its judgement, and that of a catalog.
-/

namespace BuildVocabulary

/-! ## Failing files -/

/-- There is an error, or a warning where warnings are denied. -/
def Objectionable (denyWarnings : Bool) (ds : Diagnostics) : Prop :=
  ∃ d ∈ ds, d.severity = .error ∨ denyWarnings = true ∧ d.severity = .warning

instance (denyWarnings : Bool) (ds : Diagnostics) : Decidable (Objectionable denyWarnings ds) :=
  inferInstanceAs (Decidable (∃ d ∈ ds, _))

/-- A file that does not load, or that loads with diagnostics that fail it. -/
inductive Failing (files : Files) (denyWarnings : Bool) (path : String) : Prop where
  | unloaded {e : LoadError} (h : loadPath files path = .error e)
  | flawed {o : Outcome} (h : loadPath files path = .ok o)
      (hds : Objectionable denyWarnings o.diagnostics)

section Failing

variable {files : Files} {denyWarnings : Bool} {path other : String} {o : Outcome} {e : LoadError}
  {ds : Diagnostics}

theorem failing_iff_of_ok (h : loadPath files path = .ok o) :
    Failing files denyWarnings path ↔ Objectionable denyWarnings o.diagnostics := by
  constructor
  · intro hf
    cases hf with
    | unloaded he =>
      rw [h] at he
      cases he
    | flawed ho hds =>
      rw [h] at ho
      cases ho
      exact hds
  · exact .flawed h

theorem not_failing_iff : ¬ Failing files denyWarnings path ↔
    ∃ o, loadPath files path = .ok o ∧ ¬ Objectionable denyWarnings o.diagnostics := by
  cases h : loadPath files path with
  | error e => exact ⟨fun hn => absurd (.unloaded h) hn, nofun⟩
  | ok o =>
    rw [failing_iff_of_ok h]
    exact ⟨fun hn => ⟨o, rfl, hn⟩, fun ⟨_, ho, hn⟩ => by cases ho; exact hn⟩

instance (files : Files) (denyWarnings : Bool) : DecidablePred (Failing files denyWarnings) :=
  fun path =>
    match h : loadPath files path with
    | .error _ => isTrue (.unloaded h)
    | .ok o =>
      decidable_of_iff (Objectionable denyWarnings o.diagnostics) (failing_iff_of_ok h).symm

theorem loadPath_congr (h : files path = files other) :
    loadPath files path = loadPath files other := by
  rw [loadPath, loadPath, h]

theorem failing_congr (h : files path = files other) :
    Failing files denyWarnings path ↔ Failing files denyWarnings other := by
  have hload := loadPath_congr h
  cases hother : loadPath files other with
  | error e =>
    rw [hother] at hload
    exact iff_of_true (.unloaded hload) (.unloaded hother)
  | ok o =>
    rw [hother] at hload
    rw [failing_iff_of_ok hload, failing_iff_of_ok hother]

/-! ## Counted diagnostics -/

theorem Diagnostics.countOf_pos_iff {s : Severity} :
    0 < ds.countOf s ↔ ∃ d ∈ ds, d.severity = s := by
  rw [Diagnostics.countOf, List.countP_pos_iff]
  simp only [decide_eq_true_eq]

theorem isFailure_iff :
    Command.isFailure denyWarnings ds = true ↔ Objectionable denyWarnings ds := by
  unfold Command.isFailure Diagnostics.hasErrors Diagnostics.errorCount Diagnostics.warningCount
  simp only [Bool.or_eq_true, Bool.and_eq_true, decide_eq_true_eq, Diagnostics.countOf_pos_iff]
  constructor
  · rintro (⟨d, hd, hs⟩ | ⟨hdeny, d, hd, hs⟩)
    · exact ⟨d, hd, .inl hs⟩
    · exact ⟨d, hd, .inr ⟨hdeny, hs⟩⟩
  · rintro ⟨d, hd, hs | ⟨hdeny, hs⟩⟩
    · exact .inl ⟨d, hd, hs⟩
    · exact .inr ⟨hdeny, d, hd, hs⟩

end Failing

/-! ## What is printed about a file -/

namespace Command

/-- The line about one diagnostic of a file: the path, how bad it is, and the message. -/
def noteLine (path : String) (d : Diagnostic) : String :=
  match d.severity with
  | .error => s!"{path}: error: {d.message}"
  | .warning => s!"{path}: warning: {d.message}"

/-- The line about a file that passes. -/
def okLine (path : String) (entities warnings : Nat) : String :=
  s!"{path}: ok ({entities} entities, {warnings} warnings)"

/-- The line about a file that does not load. -/
def fatalLine (path : String) (e : LoadError) : String := s!"{path}: fatal: {e.message}"

/-- The letter after the path and the two signs that follow it. -/
def letter? (path line : String) : Option Char := (line.toList.drop (path.toList.length + 2)).head?

/-- The lines about a file. A file that loads gets one line for each of its diagnostics, in the
order in which they were made. -/
inductive Reported (files : Files) (denyWarnings : Bool) (path : String) : List String → Prop where
  | fatal {e : LoadError} (h : loadPath files path = .error e) :
      Reported files denyWarnings path [fatalLine path e]
  | flawed {o : Outcome} (h : loadPath files path = .ok o)
      (hds : Objectionable denyWarnings o.diagnostics) :
      Reported files denyWarnings path (o.diagnostics.map (noteLine path))
  | passed {o : Outcome} (h : loadPath files path = .ok o)
      (hds : ¬ Objectionable denyWarnings o.diagnostics) :
      Reported files denyWarnings path (o.diagnostics.map (noteLine path) ++
        [okLine path o.model.entityCount o.diagnostics.warningCount])

variable {files : Files} {denyWarnings : Bool} {path : String} {o : Outcome} {e : LoadError}
  {ds : Diagnostics} {block : List String}

theorem letter?_append (rest : String) :
    letter? path (path ++ ": " ++ rest) = rest.toList.head? := by
  have hlist : (path ++ ": " ++ rest).toList = path.toList ++ ':' :: ' ' :: rest.toList := by
    rw [String.toList_append, String.toList_append, List.append_assoc]
    rfl
  rw [letter?, hlist, List.drop_length_add_append]
  rfl

theorem letter?_okLine (entities warnings : Nat) :
    letter? path (okLine path entities warnings) = some 'o' := by
  have hline : okLine path entities warnings =
      path ++ ": " ++ s!"ok ({entities} entities, {warnings} warnings)" := by
    simp only [okLine, String.append_assoc]
    rfl
  rw [hline, letter?_append]
  simp [String.toList_append, toString]

theorem letter?_fatalLine (e : LoadError) : letter? path (fatalLine path e) = some 'f' := by
  have hline : fatalLine path e = path ++ ": " ++ s!"fatal: {e.message}" := by
    simp only [fatalLine, String.append_assoc]
    rfl
  rw [hline, letter?_append]
  simp [String.toList_append, toString]

theorem noteLine_eq (d : Diagnostic) :
    noteLine path d = path ++ ": " ++ (d.severity.label ++ ": " ++ d.message) := by
  unfold noteLine
  cases d.severity with
  | error =>
    simp only [String.append_assoc]
    rfl
  | warning =>
    simp only [String.append_assoc]
    rfl

theorem diagnosticLines_eq_map : diagnosticLines path ds = ds.map (noteLine path) := by
  refine List.map_congr_left fun d _ => ?_
  rw [noteLine_eq]
  rfl

theorem letter?_noteLine (path : String) (d : Diagnostic) :
    letter? path (noteLine path d) = some 'e' ∨ letter? path (noteLine path d) = some 'w' := by
  rw [noteLine_eq, letter?_append]
  cases d.severity with
  | error => exact .inl (by simp [String.toList_append, Severity.label])
  | warning => exact .inr (by simp [String.toList_append, Severity.label])

theorem okLine_notMem (entities warnings : Nat) :
    okLine path entities warnings ∉ ds.map (noteLine path) := by
  intro h
  obtain ⟨d, -, hd⟩ := List.mem_map.mp h
  rcases letter?_noteLine path d with hl | hl <;> simp [hd, letter?_okLine] at hl

theorem fatalLine_notMem (e : LoadError) : fatalLine path e ∉ ds.map (noteLine path) := by
  intro h
  obtain ⟨d, -, hd⟩ := List.mem_map.mp h
  rcases letter?_noteLine path d with hl | hl <;> simp [hd, letter?_fatalLine] at hl

theorem okLine_ne_fatalLine (entities warnings : Nat) (e : LoadError) :
    okLine path entities warnings ≠ fatalLine path e := by
  intro h
  have hl := congrArg (letter? path) h
  simp [letter?_okLine, letter?_fatalLine] at hl

namespace Reported

theorem exists_okLine_iff (h : Reported files denyWarnings path block) :
    (∃ entities warnings, okLine path entities warnings ∈ block) ↔
      ¬ Failing files denyWarnings path := by
  cases h with
  | fatal he =>
    refine iff_of_false ?_ fun hn => hn (.unloaded he)
    rintro ⟨n, w, hmem⟩
    exact okLine_ne_fatalLine n w _ (List.mem_singleton.mp hmem)
  | flawed ho hds =>
    refine iff_of_false ?_ fun hn => hn (.flawed ho hds)
    rintro ⟨n, w, hmem⟩
    exact okLine_notMem n w hmem
  | passed ho hds =>
    refine iff_of_true ⟨_, _, List.mem_append_right _ List.mem_cons_self⟩ ?_
    rwa [failing_iff_of_ok ho]

theorem exists_fatalLine_iff (h : Reported files denyWarnings path block) :
    (∃ e, fatalLine path e ∈ block) ↔ ∃ e, loadPath files path = .error e := by
  cases h with
  | fatal he => exact iff_of_true ⟨_, List.mem_cons_self⟩ ⟨_, he⟩
  | flawed ho hds =>
    rw [ho]
    exact iff_of_false (fun ⟨e, hmem⟩ => fatalLine_notMem e hmem) nofun
  | passed ho hds =>
    rw [ho]
    refine iff_of_false ?_ nofun
    rintro ⟨e, hmem⟩
    rcases List.mem_append.mp hmem with hd | hok
    · exact fatalLine_notMem e hd
    · exact okLine_ne_fatalLine _ _ e (List.mem_singleton.mp hok).symm

end Reported

/-! ## One file of a check -/

theorem reported_checkPath :
    Reported files denyWarnings path (checkPath files denyWarnings path).1 := by
  unfold checkPath
  split
  next e he => exact .fatal he
  next o ho =>
    rw [diagnosticLines_eq_map]
    dsimp only
    split
    next hf => exact .flawed ho (isFailure_iff.mp hf)
    next hf => exact .passed ho (mt isFailure_iff.mpr hf)

theorem checkPath_snd_iff :
    (checkPath files denyWarnings path).2 = true ↔ Failing files denyWarnings path := by
  unfold checkPath
  split
  next e he => exact iff_of_true rfl (.unloaded he)
  next o ho =>
    rw [failing_iff_of_ok ho, ← isFailure_iff]
    dsimp only
    split <;> simp_all

/-! ## All files of a check -/

variable {inputs : List String}

/-- The message that tells how many files fail. -/
def failedMessage (failures total : Nat) : String := s!"{failures} of {total} schema(s) failed"

theorem runCheck_lines : (runCheck files inputs denyWarnings).lines =
    (inputs.map fun path => (checkPath files denyWarnings path).1).flatten := by
  rw [runCheck, ← List.flatMap_def, List.flatMap_map]

theorem runCheck_failure : (runCheck files inputs denyWarnings).failure =
    if inputs.countP (Failing files denyWarnings) = 0 then none
    else some (failedMessage (inputs.countP (Failing files denyWarnings)) inputs.length) := by
  have hcount : (inputs.map (checkPath files denyWarnings)).countP Prod.snd =
      inputs.countP fun path => Failing files denyWarnings path := by
    rw [List.countP_map]
    refine List.countP_congr fun path _ => ?_
    rw [Function.comp_apply, checkPath_snd_iff, decide_eq_true_eq]
  rw [← hcount]
  rfl

theorem runCheck_failure_eq_none_iff : (runCheck files inputs denyWarnings).failure = none ↔
    ∀ path ∈ inputs, ¬ Failing files denyWarnings path := by
  have hzero : inputs.countP (Failing files denyWarnings) = 0 ↔
      ∀ path ∈ inputs, ¬ Failing files denyWarnings path := by
    simp only [List.countP_eq_zero, decide_eq_true_eq]
  rw [runCheck_failure, ← hzero]
  split <;> simp_all

end Command

/-! ## The same files in a catalog -/

theorem accepts_iff {c : Catalog} {o : Composition} :
    c.accepts o = true ↔ ∀ f ∈ o.files, ¬ Objectionable c.denyWarnings f.diagnostics := by
  have hall : c.accepts o = !Command.isFailure c.denyWarnings o.diagnostics := by
    rw [Catalog.accepts, Command.isFailure, Bool.not_or, Diagnostics.hasErrors,
      Composition.errorCount, Composition.warningCount]
    congr 1
    cases o.diagnostics.errorCount <;> simp
  rw [hall, Bool.not_eq_true', ← Bool.not_eq_true, isFailure_iff]
  constructor
  · rintro hn f hf ⟨d, hd, hsev⟩
    exact hn ⟨d, List.mem_flatMap.mpr ⟨f, hf, hd⟩, hsev⟩
  · rintro hn ⟨d, hd, hsev⟩
    obtain ⟨f, hf, hdf⟩ := List.mem_flatMap.mp hd
    exact hn f hf ⟨d, hdf, hsev⟩

theorem forall_zip_iff {files : Files} {denyWarnings : Bool} {paths : List String}
    {os : List Outcome}
    (h : List.Forall₂ (fun path out => loadPath files path = .ok out) paths os) :
    (∀ f ∈ (paths.zip os).map fun f => FileDiagnostics.mk f.1 f.2.diagnostics,
        ¬ Objectionable denyWarnings f.diagnostics) ↔
      ∀ path ∈ paths, ¬ Failing files denyWarnings path := by
  induction h with
  | nil => exact ⟨nofun, nofun⟩
  | cons ho _ ih =>
    rw [List.zip_cons_cons, List.map_cons, List.forall_mem_cons, List.forall_mem_cons, ih,
      failing_iff_of_ok ho]

theorem exists_accepted_iff {c : Catalog} {files : Files} {directory : String} :
    (∃ o, c.load files directory = .ok o ∧ c.accepts o = true) ↔
      c.schemas ≠ [] ∧ ∀ path ∈ c.paths directory, ¬ Failing files c.denyWarnings path := by
  constructor
  · rintro ⟨o, ho, ha⟩
    obtain ⟨hne, os, hos, -, hfiles⟩ := Catalog.load_eq_ok_iff.mp ho
    rw [accepts_iff, hfiles, forall_zip_iff hos] at ha
    exact ⟨hne, ha⟩
  · rintro ⟨hne, hpass⟩
    have hload : ∀ path ∈ c.paths directory, ∃ out, loadPath files path = .ok out := by
      intro path hpath
      obtain ⟨out, hout, -⟩ := not_failing_iff.mp (hpass path hpath)
      exact ⟨out, hout⟩
    obtain ⟨o, ho⟩ := Catalog.exists_load_of_forall hne hload
    obtain ⟨-, os, hos, -, hfiles⟩ := Catalog.load_eq_ok_iff.mp ho
    refine ⟨o, ho, ?_⟩
    rw [accepts_iff, hfiles, forall_zip_iff hos]
    exact hpass

theorem runCatalog_failure_eq_none_iff {c : Catalog} {files : Files} {path : String}
    (hc : Catalog.readPath files path = .ok c) : (Command.runCatalog files path).failure = none ↔
      ∃ o, c.load files (Path.parent path) = .ok o ∧ c.accepts o = true := by
  constructor
  · intro h
    obtain ⟨c', o, hc', ho, ha, -⟩ := Command.runCatalog_cases h
    rw [hc] at hc'
    cases hc'
    exact ⟨o, ho, ha⟩
  · rintro ⟨o, ho, ha⟩
    rw [Command.runCatalog, hc]
    dsimp only
    rw [ho]
    dsimp only
    rw [if_pos ha]

/-- Files that are the same one by one fail together. -/
theorem forall_not_failing_congr {files : Files} {denyWarnings : Bool} {paths others : List String}
    (h : List.Forall₂ (fun path other => files path = files other) paths others) :
    (∀ path ∈ paths, ¬ Failing files denyWarnings path) ↔
      ∀ path ∈ others, ¬ Failing files denyWarnings path := by
  induction h with
  | nil => exact ⟨nofun, nofun⟩
  | cons hp _ ih => rw [List.forall_mem_cons, List.forall_mem_cons, ih, failing_congr hp]

open Command in
/-- **Checks and catalogs agree.** A check prints the lines about each file in the order of its
inputs: one for each diagnostic of a file that loads, in order, with a line that says `ok` exactly
about the files that do not fail and one that says `fatal` exactly about those that do not load. It
succeeds iff no file fails, and else tells how many do. A catalog over the same files in the same
order succeeds iff the check does. -/
theorem check_agrees_with_catalog (files : Files) (inputs : List String) (denyWarnings : Bool)
    (hne : inputs ≠ []) :
    (∃ blocks, (runCheck files inputs denyWarnings).lines = blocks.flatten ∧
      List.Forall₂ (fun path block => Reported files denyWarnings path block ∧
        ((∃ entities warnings, okLine path entities warnings ∈ block) ↔
          ¬ Failing files denyWarnings path) ∧
        ((∃ e, fatalLine path e ∈ block) ↔ ∃ e, loadPath files path = .error e)) inputs blocks) ∧
    ((runCheck files inputs denyWarnings).failure = none ↔
      ∀ path ∈ inputs, ¬ Failing files denyWarnings path) ∧
    (∀ path ∈ inputs, Failing files denyWarnings path →
      (runCheck files inputs denyWarnings).failure =
        some (failedMessage (inputs.countP (Failing files denyWarnings)) inputs.length)) ∧
    ∀ path c, Catalog.readPath files path = .ok c → c.denyWarnings = denyWarnings →
      List.Forall₂ (fun listed input => files listed = files input)
        (c.paths (Path.parent path)) inputs →
      ((runCatalog files path).failure = none ↔
        (runCheck files inputs denyWarnings).failure = none) := by
  refine ⟨?_, runCheck_failure_eq_none_iff, fun path hpath hf => ?_,
    fun path c hc hdeny hsame => ?_⟩
  · refine ⟨_, runCheck_lines, ?_⟩
    rw [List.forall₂_map_right_iff, List.forall₂_same]
    intro path _
    have hblock : Reported files denyWarnings path (checkPath files denyWarnings path).1 :=
      reported_checkPath
    exact ⟨hblock, hblock.exists_okLine_iff, hblock.exists_fatalLine_iff⟩
  · have hsome : (runCheck files inputs denyWarnings).failure ≠ none := fun hnone =>
      runCheck_failure_eq_none_iff.mp hnone path hpath hf
    rw [runCheck_failure] at hsome ⊢
    exact if_neg fun hzero => hsome (if_pos hzero)
  · have hschemas : c.schemas ≠ [] := by
      intro hnil
      rw [Catalog.paths, hnil, List.map_nil, List.forall₂_nil_left_iff] at hsame
      exact hne hsame
    rw [runCatalog_failure_eq_none_iff hc, exists_accepted_iff, hdeny,
      runCheck_failure_eq_none_iff, forall_not_failing_congr hsame]
    exact and_iff_right hschemas

/-- Files of which one passes, one has a warning and one does not load, and a catalog of all. -/
def judgedFiles : Files := Files.ofTexts [
  ("schemas.yml", "version: x\nschemas: [tint.json, extra.json, dashes.json]\n" ++
    "deny_warnings: true\n"),
  ("tint.json", Json.compact (.object [
    ("customTypes", .object [("Color", .array [.text "Red"])]),
    ("properties", .object [("Tint", .object [("type", .text "@color")])])])),
  ("extra.json", Json.compact (.object [("extra", .null)])),
  ("dashes.json", Json.compact (.object [
    ("customTypes", .object [("foo--bar", .array [.text "a"])])]))]

open Command in
theorem check_agrees_with_catalog_judged :
    ["tint.json", "extra.json", "dashes.json"] ≠ [] ∧
    (∃ blocks, (runCheck judgedFiles ["tint.json", "extra.json", "dashes.json"] true).lines =
      blocks.flatten ∧ List.Forall₂ (Reported judgedFiles true)
        ["tint.json", "extra.json", "dashes.json"] blocks) ∧
    (runCheck judgedFiles ["tint.json", "extra.json", "dashes.json"] true).failure =
      some "2 of 3 schema(s) failed" ∧
    ∃ c, Catalog.readPath judgedFiles "schemas.yml" = .ok c ∧ c.denyWarnings = true ∧
      List.Forall₂ (fun listed input => judgedFiles listed = judgedFiles input)
        (c.paths (Path.parent "schemas.yml")) ["tint.json", "extra.json", "dashes.json"] ∧
      ((runCatalog judgedFiles "schemas.yml").failure = none ↔
        (runCheck judgedFiles ["tint.json", "extra.json", "dashes.json"] true).failure = none) := by
  have hne : ["tint.json", "extra.json", "dashes.json"] ≠ [] := List.cons_ne_nil _ _
  obtain ⟨⟨blocks, hlines, hblocks⟩, -, hcount, hcatalog⟩ :=
    check_agrees_with_catalog judgedFiles ["tint.json", "extra.json", "dashes.json"] true hne
  have hfailing : Failing judgedFiles true "extra.json" := by decide +kernel
  have hread : Catalog.readPath judgedFiles "schemas.yml" =
      .ok ⟨"x", ["tint.json", "extra.json", "dashes.json"], .union, true⟩ := by decide +kernel
  have hsame : List.Forall₂ (fun listed input => judgedFiles listed = judgedFiles input)
      ["tint.json", "extra.json", "dashes.json"] ["tint.json", "extra.json", "dashes.json"] :=
    List.forall₂_same.mpr fun _ _ => rfl
  refine ⟨hne, ⟨blocks, hlines, hblocks.imp fun _ _ h => h.1⟩, ?_, _, hread, rfl, hsame,
    hcatalog "schemas.yml" _ hread rfl hsame⟩
  have htwo : ["tint.json", "extra.json", "dashes.json"].countP (Failing judgedFiles true) = 2 := by
    decide +kernel
  rw [hcount "extra.json" (by simp) hfailing, htwo]
  rfl

end BuildVocabulary

import BuildVocabulary.Proofs.Load.SectionOrder
import BuildVocabulary.Proofs.Load.Soundness

/-!
# Phases of loading

A document is loaded in phases, one for each section. All of them work on one model and one list of
diagnostics, but a phase changes no more of the model than its own part, and reads no more of the
document than its own section and those that it refers to: the custom types, and for groups the
items.

* `importsPhase`, `typesPhase`, `propertiesPhase`, `itemsPhase`, `groupsPhase`, `targetsPhase`: what
  each phase gives and reports, as a function of the document;
* `ReadsOnly`: what is computed from a document depends on some of its sections alone;
* `resolveMembers_eq_ok`: what the phases of a loaded document give and report;
* **`load_phases`**: the diagnostics come in one block a phase, and phases do not interfere.
-/

namespace BuildVocabulary

open Json (Location Members)

/-! ## What a part gives and reports -/

namespace Resolve

variable {α : Type} {r : Resolve α} {a : α} {fs : List Finding}

/-- The value of a part, or a default if it fails. -/
def valueD (default : α) : Resolve α → α
  | .ok a _ => a
  | .fail _ => default

/-- What a part reports; nothing if it fails. -/
def findings : Resolve α → List Finding
  | .ok _ fs => fs
  | .fail _ => []

/-- What a part reports, as diagnostics. -/
def diagnostics (r : Resolve α) : Diagnostics := r.findings.map Finding.diagnostic

theorem valueD_of_eq_ok (h : r = .ok a fs) (default : α) : r.valueD default = a := by
  rw [h, valueD]

theorem findings_of_eq_ok (h : r = .ok a fs) : r.findings = fs := by
  rw [h, findings]

end Resolve

/-! ## The phases of a document -/

section Phases

variable (ms : Members)

def importsPhase : Resolve (List String) := sectionOr ms SectionKey.imports [] resolveImports

def typesPhase : Resolve Registry := sectionOr ms SectionKey.customTypes .empty resolveRegistry

/-- The custom types that a document defines. -/
def registryOf : Registry := (typesPhase ms).valueD .empty

def propertiesPhase : Resolve (NameMap Property) :=
  sectionOr ms SectionKey.properties .empty
    (resolveSection (.redefined .property) (resolveProperty (registryOf ms)))

def itemsPhase : Resolve (NameMap Item) :=
  sectionOr ms SectionKey.items .empty
    (resolveSection (.redefined .item) (resolveItem (registryOf ms)))

/-- The items that a document defines, before any group is applied. -/
def definedItems : NameMap Item := (itemsPhase ms).valueD .empty

def groupsPhase : Resolve (NameMap Item) :=
  sectionOr ms SectionKey.groups (definedItems ms) (resolveGroups (registryOf ms) (definedItems ms))

def targetsPhase : Resolve (NameMap Target) :=
  sectionOr ms SectionKey.targets .empty (resolveSection (.redefined .target) resolveTarget)

end Phases

/-- Imports are not reported on. -/
theorem findings_importsPhase {ms : Members} {imports : List String} {fs : List Finding}
    (h : importsPhase ms = .ok imports fs) : fs = [] := by
  unfold importsPhase sectionOr at h
  split at h
  · simp only [resolveImports, Resolve.bind_eq_ok_iff, Resolve.lift_eq_ok_iff] at h
    obtain ⟨_, _, _, ⟨-, rfl⟩, ⟨-, rfl⟩, rfl⟩ := h
    rfl
  · cases h
    rfl

/-- What each phase of a loaded document gives and reports. -/
theorem resolveMembers_eq_ok {ms : Members} {m : Model} {fs : List Finding}
    (h : resolveMembers ms = .ok m fs) :
    importsPhase ms = .ok m.imports [] ∧
    typesPhase ms = .ok (registryOf ms) (typesPhase ms).findings ∧
    propertiesPhase ms = .ok m.properties (propertiesPhase ms).findings ∧
    itemsPhase ms = .ok (definedItems ms) (itemsPhase ms).findings ∧
    groupsPhase ms = .ok m.items (groupsPhase ms).findings ∧
    targetsPhase ms = .ok m.targets (targetsPhase ms).findings ∧
    fs = topLevelFindings ms ++ (typesPhase ms).findings ++ (propertiesPhase ms).findings ++
      (itemsPhase ms).findings ++ (groupsPhase ms).findings ++ (targetsPhase ms).findings := by
  unfold resolveMembers at h
  simp only [Resolve.bind_eq_ok_iff] at h
  obtain ⟨_, _, _, ⟨⟩, ⟨imports, fs₀, _, himports, ⟨registry, fs₁, _, htypes, ⟨properties, fs₂, _,
    hproperties, ⟨items, fs₃, _, hitems, ⟨items', fs₄, _, hgroups, ⟨targets, fs₅, _, htargets, ⟨⟩,
    rfl⟩, rfl⟩, rfl⟩, rfl⟩, rfl⟩, rfl⟩, rfl⟩ := h
  have himports : importsPhase ms = .ok imports fs₀ := himports
  have htypes : typesPhase ms = .ok registry fs₁ := htypes
  obtain rfl : registryOf ms = registry := Resolve.valueD_of_eq_ok htypes _
  have hproperties : propertiesPhase ms = .ok properties fs₂ := hproperties
  have hitems : itemsPhase ms = .ok items fs₃ := hitems
  obtain rfl : definedItems ms = items := Resolve.valueD_of_eq_ok hitems _
  have hgroups : groupsPhase ms = .ok items' fs₄ := hgroups
  have htargets : targetsPhase ms = .ok targets fs₅ := htargets
  obtain rfl := findings_importsPhase himports
  rw [Resolve.findings_of_eq_ok htypes, Resolve.findings_of_eq_ok hproperties,
    Resolve.findings_of_eq_ok hitems, Resolve.findings_of_eq_ok hgroups,
    Resolve.findings_of_eq_ok htargets]
  refine ⟨himports, htypes, hproperties, hitems, hgroups, htargets, ?_⟩
  simp only [List.nil_append, List.append_nil, List.append_assoc]

/-! ## What the phases read -/

/-- Two documents have the same values under these keys, or none. -/
def AgreeOn (keys : List String) (ms ms' : Members) : Prop :=
  ∀ key ∈ keys, ms.find? key = ms'.find? key

/-- What is computed from a document depends on the values of these keys alone. -/
def ReadsOnly {α : Type} (keys : List String) (f : Members → α) : Prop :=
  ∀ ms ms', AgreeOn keys ms ms' → f ms = f ms'

open Loading (Confined)
open SectionKey

section Reads

variable {ms ms' : Members}

theorem typesPhase_congr (h : ms.find? customTypes = ms'.find? customTypes) :
    typesPhase ms = typesPhase ms' := sectionOr_congr h _ _

theorem registryOf_congr (h : ms.find? customTypes = ms'.find? customTypes) :
    registryOf ms = registryOf ms' := by
  rw [registryOf, registryOf, typesPhase_congr h]

theorem itemsPhase_congr (htypes : ms.find? customTypes = ms'.find? customTypes)
    (hitems : ms.find? items = ms'.find? items) : itemsPhase ms = itemsPhase ms' := by
  rw [itemsPhase, itemsPhase, registryOf_congr htypes, sectionOr_congr hitems]

theorem readsOnly_importsPhase : ReadsOnly [imports] importsPhase := by
  intro ms ms' h
  exact sectionOr_congr (h imports (by decide)) _ _

theorem readsOnly_typesPhase : ReadsOnly [customTypes] typesPhase := by
  intro ms ms' h
  exact typesPhase_congr (h customTypes (by decide))

theorem readsOnly_propertiesPhase : ReadsOnly [customTypes, properties] propertiesPhase := by
  intro ms ms' h
  have hproperties := h properties (by decide)
  rw [propertiesPhase, propertiesPhase, registryOf_congr (h customTypes (by decide)),
    sectionOr_congr hproperties]

theorem readsOnly_itemsPhase : ReadsOnly [customTypes, items] itemsPhase := by
  intro ms ms' h
  exact itemsPhase_congr (h customTypes (by decide)) (h items (by decide))

theorem readsOnly_groupsPhase : ReadsOnly [customTypes, items, groups] groupsPhase := by
  intro ms ms' h
  have htypes := h customTypes (by decide)
  have hitems : definedItems ms = definedItems ms' := by
    rw [definedItems, definedItems, itemsPhase_congr htypes (h items (by decide))]
  have hgroups := h groups (by decide)
  rw [groupsPhase, groupsPhase, registryOf_congr htypes, hitems, sectionOr_congr hgroups]

theorem readsOnly_targetsPhase : ReadsOnly [targets] targetsPhase := by
  intro ms ms' h
  exact sectionOr_congr (h targets (by decide)) _ _

/-- A phase gives the same value in two documents that agree on what it reads. -/
theorem ReadsOnly.value_eq {α : Type} {keys : List String} {phase : Members → Resolve α} {a a' : α}
    {fs fs' : List Finding} (hphase : ReadsOnly keys phase) (h : AgreeOn keys ms ms')
    (ha : phase ms = .ok a fs) (ha' : phase ms' = .ok a' fs') : a = a' := by
  rw [hphase ms ms' h, ha'] at ha
  cases ha
  rfl

end Reads

/-! ## Loading -/

theorem exists_members_of_load {doc : Json} {o : Outcome} (h : load doc = .ok o) :
    ∃ ms fs, doc = .object ms ∧ resolveMembers ms = .ok o.model fs ∧
      o.diagnostics = fs.map Finding.diagnostic := by
  obtain ⟨fs, hr, hfs⟩ := exists_of_load h
  cases doc with
  | object ms => exact ⟨ms, fs, rfl, hr, hfs⟩
  | _ => cases hr

theorem diagnostics_of_load {doc : Json} {o : Outcome} (h : load doc = .ok o) :
    ∃ ms, doc = .object ms ∧ o.diagnostics =
      unknownKeyWarnings ms ++ (typesPhase ms).diagnostics ++ (propertiesPhase ms).diagnostics ++
        (itemsPhase ms).diagnostics ++ (groupsPhase ms).diagnostics ++
        (targetsPhase ms).diagnostics := by
  obtain ⟨ms, fs, hdoc, hr, hfs⟩ := exists_members_of_load h
  obtain ⟨-, -, -, -, -, -, rfl⟩ := resolveMembers_eq_ok hr
  refine ⟨ms, hdoc, ?_⟩
  rw [hfs]
  simp only [List.map_append, map_diagnostic_topLevelFindings, Resolve.diagnostics]

/-- **Phases do not interfere.** Run on any model and diagnostics, a phase reads and changes its own
part of the model alone, and only adds to the diagnostics. So the diagnostics of a loaded document
are those of its phases, one block after the other, and each block depends on the section of its
phase and the sections that this refers to. Two documents that agree on these sections get the same
part of the model, whatever else they hold. -/
theorem load_phases :
    (∀ ms, Confined .nothing (Loading.reportUnknownKeys ms)) ∧
    (∀ here v, Confined .imports (Loading.addImports here v)) ∧
    (∀ here v, Confined .nothing (Loading.buildRegistry here v)) ∧
    (∀ registry here v, Confined .properties (Loading.addProperties registry here v)) ∧
    (∀ registry here v, Confined .items (Loading.addItems registry here v)) ∧
    (∀ registry here v, Confined .items (Loading.applyGroups registry here v)) ∧
    (∀ here v, Confined .targets (Loading.addTargets here v)) ∧
    (∀ doc o, load doc = .ok o → ∃ ms, doc = .object ms ∧ o.diagnostics =
      unknownKeyWarnings ms ++ (typesPhase ms).diagnostics ++ (propertiesPhase ms).diagnostics ++
        (itemsPhase ms).diagnostics ++ (groupsPhase ms).diagnostics ++
        (targetsPhase ms).diagnostics) ∧
    (∀ ms ms' : Members, ms.keys = ms'.keys → unknownKeyWarnings ms = unknownKeyWarnings ms') ∧
    ReadsOnly [customTypes] typesPhase ∧
    ReadsOnly [customTypes, properties] propertiesPhase ∧
    ReadsOnly [customTypes, items] itemsPhase ∧
    ReadsOnly [customTypes, items, groups] groupsPhase ∧
    ReadsOnly [targets] targetsPhase ∧
    ∀ ms ms' o o', load (.object ms) = .ok o → load (.object ms') = .ok o' →
      (AgreeOn [customTypes, properties] ms ms' → o.model.properties = o'.model.properties) ∧
      (AgreeOn [customTypes, items, groups] ms ms' → o.model.items = o'.model.items) ∧
      (AgreeOn [targets] ms ms' → o.model.targets = o'.model.targets) ∧
      (AgreeOn [imports] ms ms' → o.model.imports = o'.model.imports) := by
  refine ⟨fun ms => (Loading.returns_reportUnknownKeys ms).confined,
    fun here v => (Loading.updates_addImports here v).confined,
    fun here v => (Loading.returns_buildRegistry here v).confined,
    fun registry here v => (Loading.updates_addProperties registry here v).confined,
    fun registry here v => (Loading.updates_addItems registry here v).confined,
    fun registry here v => (Loading.updates_applyGroups registry here v).confined,
    fun here v => (Loading.updates_addTargets here v).confined,
    fun _ _ => diagnostics_of_load, fun ms ms' h => ?_, readsOnly_typesPhase,
    readsOnly_propertiesPhase, readsOnly_itemsPhase, readsOnly_groupsPhase, readsOnly_targetsPhase,
    fun ms ms' o o' ho ho' => ?_⟩
  · rw [unknownKeyWarnings, unknownKeyWarnings, h]
  obtain ⟨_, _, ⟨⟩, hr, -⟩ := exists_members_of_load ho
  obtain ⟨_, _, ⟨⟩, hr', -⟩ := exists_members_of_load ho'
  obtain ⟨himports, -, hproperties, -, hgroups, htargets, -⟩ := resolveMembers_eq_ok hr
  obtain ⟨himports', -, hproperties', -, hgroups', htargets', -⟩ := resolveMembers_eq_ok hr'
  refine ⟨fun h => ?_, fun h => ?_, fun h => ?_, fun h => ?_⟩
  · exact readsOnly_propertiesPhase.value_eq h hproperties hproperties'
  · exact readsOnly_groupsPhase.value_eq h hgroups hgroups'
  · exact readsOnly_targetsPhase.value_eq h htargets htargets'
  · exact readsOnly_importsPhase.value_eq h himports himports'

/-- A document with a finding in every phase. -/
def chattyMembers : Members := [
  ("zeta", .null),
  ("intellisenseImports", .array [.text "base"]),
  ("customTypes", .object [("Color", .array [.text "Red", .text "RED"])]),
  ("properties", .object [("Tint", .object [("type", .text "@Colour")])]),
  ("items", .object [("Compile", .object [("type", .text "@Color")])]),
  ("metadata", .array [
    .object [("$appliesTo", .text "compile"), ("$x", .null), ("Link", .text "Path")]]),
  ("targets", .object [("Build", .object [("x", .null)])])]

/-- The same custom types, properties and targets beside other items and imports. -/
def otherItemsMembers : Members :=
  [("items", .object []), ("intellisenseImports", .array []), ("alpha", .null)] ++
    chattyMembers.filter (·.1 ∈ [customTypes, properties, targets])

/-- The same custom types, items, groups and imports beside other properties and targets. -/
def otherPropertiesMembers : Members :=
  [("targets", .object [("Clean", .text "Removes all output")]), ("properties", .object [])] ++
    chattyMembers.filter (·.1 ∈ [imports, customTypes, items, groups])

theorem load_phases_chatty : ∃ o o₁ o₂, load (.object chattyMembers) = .ok o ∧
    load (.object otherItemsMembers) = .ok o₁ ∧
    load (.object otherPropertiesMembers) = .ok o₂ ∧
    o.diagnostics = unknownKeyWarnings chattyMembers ++ (typesPhase chattyMembers).diagnostics ++
      (propertiesPhase chattyMembers).diagnostics ++ (itemsPhase chattyMembers).diagnostics ++
      (groupsPhase chattyMembers).diagnostics ++ (targetsPhase chattyMembers).diagnostics ∧
    AgreeOn [customTypes, properties] chattyMembers otherItemsMembers ∧
    AgreeOn [targets] chattyMembers otherItemsMembers ∧
    AgreeOn [customTypes, items, groups] chattyMembers otherPropertiesMembers ∧
    AgreeOn [imports] chattyMembers otherPropertiesMembers ∧
    o.model.properties = o₁.model.properties ∧ o.model.targets = o₁.model.targets ∧
    o.model.items = o₂.model.items ∧ o.model.imports = o₂.model.imports := by
  have hload : (load (.object chattyMembers)).isOk = true := by decide +kernel
  have hload₁ : (load (.object otherItemsMembers)).isOk = true := by decide +kernel
  have hload₂ : (load (.object otherPropertiesMembers)).isOk = true := by decide +kernel
  obtain ⟨o, ho⟩ := exists_load_of_isOk hload
  obtain ⟨o₁, ho₁⟩ := exists_load_of_isOk hload₁
  obtain ⟨o₂, ho₂⟩ := exists_load_of_isOk hload₂
  have hproperties : AgreeOn [customTypes, properties] chattyMembers otherItemsMembers := by
    rintro key (_ | ⟨_, _ | ⟨_, ⟨⟩⟩⟩) <;> rfl
  have htargets : AgreeOn [targets] chattyMembers otherItemsMembers := by
    rintro key (_ | ⟨_, ⟨⟩⟩)
    rfl
  have hitems : AgreeOn [customTypes, items, groups] chattyMembers otherPropertiesMembers := by
    rintro key (_ | ⟨_, _ | ⟨_, _ | ⟨_, ⟨⟩⟩⟩⟩) <;> rfl
  have himports : AgreeOn [imports] chattyMembers otherPropertiesMembers := by
    rintro key (_ | ⟨_, ⟨⟩⟩)
    rfl
  obtain ⟨-, -, -, -, -, -, -, hblocks, -, -, -, -, -, -, hphases⟩ := load_phases
  obtain ⟨_, ⟨⟩, hdiagnostics⟩ := hblocks _ o ho
  have h₁ := hphases _ _ o o₁ ho ho₁
  have h₂ := hphases _ _ o o₂ ho ho₂
  exact ⟨o, o₁, o₂, ho, ho₁, ho₂, hdiagnostics, hproperties, htargets, hitems, himports,
    h₁.1 hproperties, h₁.2.2.1 htargets, h₂.2.1 hitems, h₂.2.2.2 himports⟩

end BuildVocabulary

import BuildVocabulary.Proofs.Load.Acceptance
import BuildVocabulary.Proofs.Load.Creation
import BuildVocabulary.Proofs.Load.Declaration
import BuildVocabulary.Proofs.Load.Phases

/-!
# Redefined names in a document

No definition of a document is shadowed silently. Each of its sections, and the metadata inside of
each item, holds every name once, as it is defined last, and reports the other definitions.

* `sectionMembers`, `metadataMembers`, `groupMentions`: the parts of a document where names stand;
* `declareAll_of_resolveItem`: the metadata of an item is a section of its own;
* `Unshadowed`: what all sections of a document declare and report together;
* **`load_unshadowed`**: it holds of every document that loads.
-/

namespace BuildVocabulary

open Json (Location Members)
open SectionKey

/-! ## Where names stand -/

/-- The members of an object, if there is one. -/
def membersOf : Option Json → Members
  | some (.object ms) => ms
  | _ => []

/-- The members of a section of a document. -/
def sectionMembers (ms : Members) (key : String) : Members := membersOf (ms.find? key)

/-- The members that declare the metadata of an item. -/
def metadataMembers (item : Json) : Members :=
  membersOf (Members.last? (membersOf (some item)) "metadata")

/-- The names of items that the groups of a document list. -/
def groupMentions (ms : Members) : List String :=
  match ms.find? groups with
  | some (.array vs) => vs.flatMap mentions
  | _ => []

section Sections

variable {α : Type} {again : String → Finding} {resolve : Location → String → Json → Resolve α}
  {here : Location} {ms : Members} {m : NameMap α} {fs : List Finding}

theorem resolveSection_eq_ok {v : Json} (h : resolveSection again resolve here v = .ok m fs) :
    declareAll again resolve here (membersOf (some v)) = .ok m fs := by
  cases v with
  | object ms =>
    rw [resolveSection, Json.requireObject, Resolve.lift_ok_bind] at h
    exact h
  | _ => cases h

theorem declareAll_of_sectionOr {key : String}
    (h : sectionOr ms key .empty (resolveSection again resolve) = .ok m fs) :
    declareAll again resolve [.key key] (sectionMembers ms key) = .ok m fs := by
  unfold sectionOr at h
  unfold sectionMembers
  cases hfind : ms.find? key with
  | none =>
    rw [hfind] at h
    exact h
  | some v =>
    rw [hfind] at h
    exact resolveSection_eq_ok h

end Sections

/-! ## Metadata inside items -/

/-- Whether a finding reports a repeated name of metadata. -/
def Finding.redefinesMetadata : Finding → Bool
  | .metadataRedefined _ _ => true
  | _ => false

theorem redefinesMetadata_iff {f : Finding} :
    f.redefinesMetadata = true ↔ ∃ item, f.scope? = some (.metadata item) := by
  cases f <;> simp [Finding.redefinesMetadata, Finding.scope?]

section Items

variable {registry : Registry} {here : Location} {name : String} {v : Json} {i : Item}
  {gs : List Finding}

theorem declareAll_of_resolveItemMetadata {w : Option Json} {m : NameMap Metadata}
    (h : resolveItemMetadata registry name here w = .ok m gs) :
    declareAll (Scope.metadata name).again (resolveMetadata registry name) here (membersOf w) =
      .ok m gs := by
  cases w with
  | none => exact h
  | some v => exact resolveSection_eq_ok h

/-- The metadata of an item is a section of its own; what the item reports besides is plain. -/
theorem declareAll_of_resolveItem (h : resolveItem registry here name v = .ok i gs) :
    ∃ fs ds, gs = fs ++ ds ∧ (∀ f ∈ fs, f.Plain) ∧
      declareAll (Scope.metadata name).again (resolveMetadata registry name) (here.key "metadata")
        (metadataMembers v) = .ok i.metadata ds := by
  simp only [resolveItem, Resolve.bind_eq_ok_iff, Resolve.lift_eq_ok_iff,
    Json.requireObject_eq_ok] at h
  obtain ⟨ms, _, _, ⟨rfl, rfl⟩, ⟨f, fs, _, hf, ⟨_, rs, _, hr, ⟨m, ds, _, hm, ⟨⟩, rfl⟩, rfl⟩, rfl⟩,
    rfl⟩ := h
  have hlast : f.metadata = Members.last? ms "metadata" :=
    metadata_of_resolveField (P := fun _ => True) ⟨fs, hf, fun _ _ => trivial⟩
  have hfield : ∀ g ∈ fs, g.Plain := plain_resolveField.forall_mem hf
  have hkind : ∀ g ∈ rs, g.Plain := (Resolve.ReportsOnly.reportIf _ (by rfl)).forall_mem hr
  refine ⟨fs ++ rs, ds, by simp, List.forall_mem_append.mpr ⟨hfield, hkind⟩, ?_⟩
  rw [hlast] at hm
  exact declareAll_of_resolveItemMetadata hm

theorem declares_of_resolveItem (h : resolveItem registry here name v = .ok i gs) :
    Declares (.metadata name) (resolveMetadata registry name) (here.key "metadata")
      (metadataMembers v) i.metadata gs := by
  obtain ⟨fs, ds, rfl, hplain, hds⟩ := declareAll_of_resolveItem h
  have hmetadata := declares_of_declareAll hds fun _ _ _ =>
    plain_resolveMetadata.mono fun _ hf => hf.scope?_ne
  exact hmetadata.after fun f hf => (hplain f hf).scope?_ne

/-- The repeated metadata names that an item reports are its own. -/
theorem filter_redefinesMetadata (h : resolveItem registry here name v = .ok i gs) :
    gs.filter Finding.redefinesMetadata =
      (repeats (definedNames (metadataMembers v))).map (Scope.metadata name).again := by
  rw [← (declares_of_resolveItem h).reports]
  refine List.filter_congr fun f hf => ?_
  rw [Bool.eq_iff_iff, redefinesMetadata_iff, decide_eq_true_eq]
  rcases scope_resolveItem.forall_mem h f hf with hplain | hown
  · have hnone : f.scope? = none := hplain
    simp [hnone]
  · exact ⟨fun _ => hown, fun _ => ⟨name, hown⟩⟩

end Items

/-! ## Documents -/

/-- No definition of a document is shadowed silently. -/
structure Unshadowed (ms : Members) (o : Outcome) : Prop where
  diagnostics : o.diagnostics =
    (topLevelFindings ms ++ (typesPhase ms).findings ++ (propertiesPhase ms).findings ++
      (itemsPhase ms).findings ++ (groupsPhase ms).findings ++
      (targetsPhase ms).findings).map Finding.diagnostic
  /-- Of all findings, the reports of repeated names are those that say so. -/
  worded : ∀ f : Finding, f.SaysRedefined ↔ ∃ scope, f.scope? = some scope
  typesDeclared : Declares (.defined .customType) resolveNamedType [.key customTypes]
    (sectionMembers ms customTypes) (registryOf ms) (typesPhase ms).findings
  propertiesDeclared : Declares (.defined .property) (resolveProperty (registryOf ms))
    [.key properties] (sectionMembers ms properties) o.model.properties
    (propertiesPhase ms).findings
  itemsDeclared : Declares (.defined .item) (resolveItem (registryOf ms)) [.key items]
    (sectionMembers ms items) (definedItems ms) (itemsPhase ms).findings
  targetsDeclared : Declares (.defined .target) resolveTarget [.key targets]
    (sectionMembers ms targets) o.model.targets (targetsPhase ms).findings
  /-- Inside each item that is defined, whether it is defined again or not. -/
  metadataDeclared : ∀ e ∈ definitions (sectionMembers ms items), ∃ i gs,
    resolveItem (registryOf ms) [.key items, .key e.1] e.1 e.2 = .ok i gs ∧
      Declares (.metadata e.1) (resolveMetadata (registryOf ms) e.1)
        [.key items, .key e.1, .key "metadata"] (metadataMembers e.2) i.metadata gs
  /-- The items section reports all metadata that is repeated inside items, item by item. -/
  nested : (itemsPhase ms).findings.filter Finding.redefinesMetadata =
    (definitions (sectionMembers ms items)).flatMap fun e =>
      (repeats (definedNames (metadataMembers e.2))).map (Scope.metadata e.1).again
  /-- Behind the items that are defined stand those that groups are the first to mention. -/
  created : o.model.items.names = (definedItems ms).names ++
    firsts ((groupMentions ms).filter fun name => !(definedItems ms).contains name)

section Documents

variable {ms : Members}

/-- Groups leave the items that are defined where they are. -/
theorem names_of_groupsPhase {m : NameMap Item} {fs : List Finding}
    (h : groupsPhase ms = .ok m fs) : m.names = (definedItems ms).names ++
      firsts ((groupMentions ms).filter fun name => !(definedItems ms).contains name) := by
  have hdefined : firsts (definedItems ms).names = (definedItems ms).names := by
    refine firsts_of_nodup ?_
    rw [NameMap.map_fold_names]
    exact (definedItems ms).keys_nodup
  have hnames : m.names = firsts ((definedItems ms).names ++ groupMentions ms) := by
    unfold groupsPhase sectionOr at h
    unfold groupMentions
    cases hfind : ms.find? groups with
    | none =>
      rw [hfind] at h
      cases h
      rw [List.append_nil, hdefined]
    | some v =>
      simp only [hfind, resolveGroups, Resolve.bind_eq_ok_iff, Resolve.lift_eq_ok_iff,
        Json.requireArray_eq_ok] at h
      obtain ⟨vs, _, gs, ⟨rfl, -⟩, h, -⟩ := h
      exact names_of_applyGroups (P := fun _ => True) ⟨gs, h, fun _ _ => trivial⟩ hdefined.symm
  simp only [hnames, firsts_append, hdefined, named_names]

/-- **Nothing that a document defines is shadowed silently.** -/
theorem load_unshadowed {doc : Json} {o : Outcome} (h : load doc = .ok o) :
    ∃ ms, doc = .object ms ∧ Unshadowed ms o := by
  obtain ⟨ms, fs, hdoc, hr, hfs⟩ := exists_members_of_load h
  obtain ⟨-, htypes, hproperties, hitems, hgroups, htargets, rfl⟩ := resolveMembers_eq_ok hr
  have hdeclared := declareAll_of_sectionOr hitems
  refine ⟨ms, hdoc, hfs, fun _ => saysRedefined_iff, ?_, ?_, ?_, ?_, ?_, ?_,
    names_of_groupsPhase hgroups⟩
  · exact declares_of_declareAll (declareAll_of_sectionOr htypes) fun _ _ _ =>
      plain_resolveNamedType.mono fun _ hf => hf.scope?_ne
  · exact declares_of_declareAll (declareAll_of_sectionOr hproperties) fun _ _ _ =>
      plain_resolveProperty.mono fun _ hf => hf.scope?_ne
  · refine declares_of_declareAll hdeclared fun _ name _ => scope_resolveItem.mono fun f hf => ?_
    rcases hf with hf | hf
    · exact hf.scope?_ne
    · simp [hf]
  · exact declares_of_declareAll (declareAll_of_sectionOr htargets) fun _ _ _ =>
      plain_resolveTarget.mono fun _ hf => hf.scope?_ne
  · intro e he
    obtain ⟨i, gs, hi⟩ := exists_resolved_of_declareAll hdeclared e he
    exact ⟨i, gs, hi, declares_of_resolveItem hi⟩
  · have hagain : ∀ name, (Finding.redefined .item name).redefinesMetadata = false := fun _ => rfl
    exact filter_of_declareAll hdeclared hagain fun _ _ _ => filter_redefinesMetadata

end Documents

/-- A document that repeats names in every section, and mentions new items in its groups. -/
def variantMembers : Members := [
  ("customTypes", .object [("Color", .array [.text "Red"]), ("#", .null),
    ("COLOR", .array [.text "Blue"])]),
  ("properties", .object [("Tint", .text "Old"), ("TINT", .text "Older"), ("Width", .text "Wide"),
    ("tint", .text "New")]),
  ("items", .object [
    ("Compile", .object [("metadata", .object [("Link", .text "Path"), ("LINK", .text "Shown")])]),
    ("None", .object []),
    ("COMPILE", .object [("metadata", .object [("Link", .text "Target")])])]),
  ("metadata", .array [
    .object [("$appliesTo", .array [.text "Extra", .text "none", .text "EXTRA"]),
      ("Copy", .text "If")],
    .object [("$appliesTo", .text "Other")]]),
  ("targets", .object [("Build", .text "All"), ("build", .text "Everything")])]

theorem load_unshadowed_variants : ∃ o, load (.object variantMembers) = .ok o ∧
    Unshadowed variantMembers o ∧
    repeats (definedNames (sectionMembers variantMembers properties)) = ["TINT", "tint"] ∧
    (definedItems variantMembers).names = ["COMPILE", "None"] ∧
    o.model.items.names = ["COMPILE", "None", "Extra", "Other"] := by
  have hload : (load (.object variantMembers)).isOk = true := by decide +kernel
  obtain ⟨o, ho⟩ := exists_load_of_isOk hload
  obtain ⟨_, ⟨⟩, hunshadowed⟩ := load_unshadowed ho
  have hdefined : (definedItems variantMembers).names = ["COMPILE", "None"] := by decide +kernel
  have hmentioned : firsts ((groupMentions variantMembers).filter
      fun name => !(definedItems variantMembers).contains name) = ["Extra", "Other"] := by
    decide +kernel
  have hitems : o.model.items.names = ["COMPILE", "None", "Extra", "Other"] := by
    rw [hunshadowed.created, hdefined, hmentioned]
    rfl
  exact ⟨o, ho, hunshadowed, by decide +kernel, hdefined, hitems⟩

end BuildVocabulary

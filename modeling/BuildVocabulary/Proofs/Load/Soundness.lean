import BuildVocabulary.Proofs.Load.Group

/-!
# Loaded models are sound

A model that was loaded from a document is coherent to the letter: names and owners are spelled
exactly alike. If no error was reported, it is settled too, and no item has a custom type kind.

* `resolveDocument_cases`: the parts that a document is resolved from;
* `coherent_of_resolveDocument`, `settled_of_resolveDocument`: what holds of the resolved model;
* **`load_sound`**: the same of a loaded model, and what validation can still find in it.
-/

namespace BuildVocabulary

open Json (Location Members)

variable {P : Finding → Prop} {registry : Registry} {doc : Json} {m : Model}

/-! ## The parts of a document -/

theorem Resolve.Gives.sectionOr {α : Type} {ms : Members} {key : String} {absent a : α}
    {resolve : Location → Json → Resolve α} (h : (sectionOr ms key absent resolve).Gives P a) :
    a = absent ∨ ∃ here v, (resolve here v).Gives P a := by
  unfold BuildVocabulary.sectionOr at h
  split at h
  · exact .inr ⟨_, _, h⟩
  · exact .inl (gives_pure.mp h).symm

/-- What holds of each declared value holds of every entry of a section, if there is one. -/
theorem Resolve.Gives.sectionOr_all {α : Type} {ms : Members} {key : String} {a : NameMap α}
    {again : String → Finding} {resolve : Location → String → Json → Resolve α}
    {Q : String → α → Prop}
    (h : (BuildVocabulary.sectionOr ms key .empty
      (BuildVocabulary.resolveSection again resolve)).Gives P a)
    (hQ : ∀ there name v a, (resolve there name v).Gives P a → Q name a) : a.All Q := by
  rcases h.sectionOr with rfl | ⟨here, v, hv⟩
  · exact NameMap.All.empty
  · exact hv.resolveSection fun name w b => hQ _ name w b

/-- The parts that a document is resolved from, each after the ones that it refers to. -/
theorem resolveDocument_cases (h : (resolveDocument doc).Gives P m) :
    ∃ ms registry items, doc = .object ms ∧ m.tasks = .empty ∧
      (sectionOr ms SectionKey.imports [] resolveImports).Gives P m.imports ∧
      (sectionOr ms SectionKey.customTypes .empty resolveRegistry).Gives P registry ∧
      (sectionOr ms SectionKey.properties .empty
        (resolveSection (.redefined .property) (resolveProperty registry))).Gives P m.properties ∧
      (sectionOr ms SectionKey.items .empty
        (resolveSection (.redefined .item) (resolveItem registry))).Gives P items ∧
      (sectionOr ms SectionKey.groups items (resolveGroups registry items)).Gives P m.items ∧
      (sectionOr ms SectionKey.targets .empty
        (resolveSection (.redefined .target) resolveTarget)).Gives P m.targets := by
  cases doc with
  | object ms =>
    simp only [resolveDocument, resolveMembers, Resolve.gives_bind, Resolve.gives_pure] at h
    obtain ⟨_, -, imports, himports, registry, hregistry, properties, hproperties, items, hitems,
      items', hitems', targets, htargets, rfl⟩ := h
    exact ⟨ms, registry, items, rfl, rfl, himports, hregistry, hproperties, hitems, hitems',
      htargets⟩
  | _ => exact absurd h Resolve.not_gives_fail

/-- What holds of every item of a section and is kept by groups holds after them. -/
theorem Resolve.Gives.groups {ms : Members} {items items' : NameMap Item}
    {Q : String → Item → Prop} {D : String → Metadata → Prop}
    (h : (BuildVocabulary.sectionOr ms SectionKey.groups items
      (resolveGroups registry items)).Gives P items')
    (hk : KeptByGroups P registry Q D) (hQ : items.All Q) : items'.All Q := by
  rcases h.sectionOr with rfl | ⟨here, v, hv⟩
  · exact hQ
  · rw [resolveGroups, gives_bind] at hv
    obtain ⟨vs, -, hv⟩ := hv
    exact hv.applyGroups hk hQ

/-! ## Coherence -/

/-- Groups attach metadata under the name that an item carries. -/
theorem keptByGroups_coherent :
    KeptByGroups P registry (fun key i => key = i.name ∧ i.Coherent Eq)
      fun owner d => d.item = owner where
  named _ _ hi := hi.1
  created _ := ⟨rfl, NameMap.All.empty⟩
  attached _ _ _ hi hd := ⟨hi.1, NameMap.All.insert hi.2 ⟨rfl, hd.trans hi.1⟩⟩
  declared _ _ _ _ _ hd := (name_of_resolveMetadata hd).2
  copied _ _ _ _ := rfl

theorem coherent_of_resolveDocument (h : (resolveDocument doc).Gives P m) : m.Coherent Eq := by
  obtain ⟨_, _, items, -, htasks, -, -, hproperties, hitems, hitems', htargets⟩ :=
    resolveDocument_cases h
  have hdeclared : items.All fun key i => key = i.name ∧ i.Coherent Eq :=
    hitems.sectionOr_all fun _ _ _ _ hi =>
      ⟨(name_of_resolveItem hi).symm, coherent_of_resolveItem hi⟩
  exact {
    properties := hproperties.sectionOr_all fun _ _ _ _ hp => (name_of_resolveProperty hp).symm
    items := hitems'.groups keptByGroups_coherent hdeclared
    tasks := htasks ▸ NameMap.All.empty
    targets := htargets.sectionOr_all fun _ _ _ _ ht => (name_of_resolveTarget ht).symm }

/-! ## Documents without errors -/

theorem keptByGroups_settled :
    KeptByGroups Finding.Benign registry
      (fun key i => key = i.name ∧ i.Settled ∧ ¬ i.kind.IsCustomType)
      fun _ d => d.kind.SettledBy d.customType where
  named _ _ hi := hi.1
  created _ := ⟨rfl, NameMap.All.empty, Kind.not_isCustomType_unknown⟩
  attached _ _ _ hi hd := ⟨hi.1, NameMap.All.insert hi.2.1 hd, hi.2.2⟩
  declared _ _ _ _ _ := settled_of_resolveMetadata
  copied _ _ _ hd := hd

theorem settled_of_resolveDocument (h : (resolveDocument doc).Gives Finding.Benign m) :
    m.Settled ∧ m.items.All fun _ i => ¬ i.kind.IsCustomType := by
  obtain ⟨_, _, items, -, -, -, -, hproperties, hitems, hitems', -⟩ := resolveDocument_cases h
  have hdeclared : items.All fun key i => key = i.name ∧ i.Settled ∧ ¬ i.kind.IsCustomType :=
    hitems.sectionOr_all fun _ _ _ _ hi =>
      ⟨(name_of_resolveItem hi).symm, settled_of_resolveItem hi, not_isCustomType_of_resolveItem hi⟩
  have hall := hitems'.groups keptByGroups_settled hdeclared
  have hprops := hproperties.sectionOr_all fun _ _ _ _ => settled_of_resolveProperty
  exact ⟨⟨hprops, hall.mono fun _ _ hi => hi.2.1⟩, hall.mono fun _ _ hi => hi.2.2⟩

/-! ## Loading -/

theorem exists_of_load {o : Outcome} (h : load doc = .ok o) :
    ∃ fs, resolveDocument doc = .ok o.model fs ∧ o.diagnostics = fs.map Finding.diagnostic := by
  rw [load_eq] at h
  unfold Resolve.outcome at h
  split at h
  next model fs hr =>
    cases h
    exact ⟨fs, hr, rfl⟩
  next => cases h

theorem exists_load_of_isOk (h : (load doc).isOk = true) : ∃ o, load doc = .ok o := by
  cases hload : load doc with
  | ok o => exact ⟨o, rfl⟩
  | error e =>
    rw [hload] at h
    cases h

theorem gives_of_load {o : Outcome} (h : load doc = .ok o) :
    (resolveDocument doc).Gives (fun _ => True) o.model := by
  obtain ⟨fs, hr, -⟩ := exists_of_load h
  exact ⟨fs, hr, fun _ _ => trivial⟩

theorem hasErrors_eq_false_iff {fs : List Finding} :
    Diagnostics.hasErrors (fs.map Finding.diagnostic) = false ↔ ∀ f ∈ fs, f.Benign := by
  simp only [Diagnostics.hasErrors, Diagnostics.errorCount, Diagnostics.countOf, List.countP_map,
    decide_eq_false_iff_not, Nat.pos_iff_ne_zero, not_not, List.countP_eq_zero, decide_eq_true_eq,
    Function.comp_apply]
  rfl

theorem gives_benign_of_load {o : Outcome} (h : load doc = .ok o)
    (hd : o.diagnostics.hasErrors = false) :
    (resolveDocument doc).Gives Finding.Benign o.model := by
  obtain ⟨fs, hr, hfs⟩ := exists_of_load h
  rw [hfs, hasErrors_eq_false_iff] at hd
  exact ⟨fs, hr, hd⟩

/-- **Loaded models are sound.** In a loaded model every entity is stored under exactly its name,
metadata is owned by exactly the item that holds it, and validation finds nothing but fields
without their custom type. If no error was reported it finds nothing at all, and no item has a
custom type kind. -/
theorem load_sound {o : Outcome} (h : load doc = .ok o) :
    o.model.Coherent Eq ∧ (∀ p ∈ o.model.problems, ∃ field, p = .unresolvedType field) ∧
      (o.diagnostics.hasErrors = false →
        o.model.problems = [] ∧ ∀ i ∈ o.model.items.values, ¬ i.kind.IsCustomType) := by
  have hcoherent := coherent_of_resolveDocument (gives_of_load h)
  have hsame : o.model.Coherent SameName := hcoherent.mono fun _ _ hab => congrArg fold hab
  refine ⟨hcoherent, fun _ => Model.eq_unresolvedType_of_mem_problems hsame, fun hd => ?_⟩
  obtain ⟨hsettled, hitems⟩ := settled_of_resolveDocument (gives_benign_of_load h hd)
  exact ⟨Model.problems_eq_nil_iff.mpr ⟨hsame, hsettled⟩, NameMap.All.values.mp hitems⟩

/-- Redefined items, nested metadata of a named type, and a group over items old and new. -/
def mixedDocument : Json := .object [
  ("customTypes", .object [("Color", .array [.text "Red"])]),
  ("properties", .object [("Palette", .object [("type", .text "@COLOR")])]),
  ("items", .object [
    ("Compile", .object []),
    ("COMPILE", .object [
      ("metadata", .object [("Tint", .object [("type", .text "@color-list")])])])]),
  ("metadata", .array [.object [
    ("$appliesTo", .array [.text "compile", .text "None", .text "NONE"]),
    ("Link", .text "Display path")]])]

theorem load_sound_mixed : ∃ o, load mixedDocument = .ok o ∧ o.diagnostics.hasErrors = false ∧
    o.model.Coherent Eq ∧ (∀ p ∈ o.model.problems, ∃ field, p = .unresolvedType field) ∧
    o.model.problems = [] ∧ ∀ i ∈ o.model.items.values, ¬ i.kind.IsCustomType := by
  have hclean : (load mixedDocument).map (·.diagnostics.hasErrors) = .ok false := by
    decide +kernel
  cases h : load mixedDocument with
  | error e =>
    rw [h] at hclean
    cases hclean
  | ok o =>
    rw [h] at hclean
    have hd : o.diagnostics.hasErrors = false := Except.ok.inj hclean
    obtain ⟨hcoherent, honly, hsound⟩ := load_sound h
    exact ⟨o, rfl, hd, hcoherent, honly, hsound hd⟩

end BuildVocabulary

import BuildVocabulary.Proofs.Load.Entry
import BuildVocabulary.Proofs.Load.Frame

/-!
# What sections give on their own

`Loading.document` changes one model from phase to phase. Here every section is resolved apart from
the others, to its part of the model and the findings about it, and the model is put together from
these parts. Each phase does to its own part what the function for its section says, and nothing
else, so both ways of loading a document give the same.

* `resolveImports`, `resolveRegistry`, `resolveSection`: the sections that start from nothing;
* `applyGroup`, `resolveGroups`: what `Loading.applyGroup` and all groups make of the items;
* `Loading.updates_addImports`, `Loading.updates_applyGroups` and the like: one lemma a phase;
* `resolveDocument`: the model of a document with its findings;
* **`load_eq`**: loading a document gives that model, and the findings as diagnostics.
-/

namespace BuildVocabulary

open Json (Location Members)

/-! ## Sections that start from nothing -/

def topLevelFindings (ms : Members) : List Finding :=
  (ms.keys.filter fun key => !SectionKey.known.contains key).map .unknownTopLevelKey

def resolveImports (here : Location) (v : Json) : Resolve (List String) := do
  let vs ← Json.requireArray here v
  Json.requireTexts here 0 vs

def resolveRegistry (here : Location) (v : Json) : Resolve Registry :=
  resolveSection (.redefined .customType) resolveNamedType here v

namespace Loading

variable {α : Type} {p : Part α}

theorem returns_reportUnknownKeys (ms : Members) :
    Returns p (reportUnknownKeys ms) (.ok () (topLevelFindings ms)) := by
  induction ms with
  | nil => exact .pure ()
  | cons e ms ih =>
    refine ((Returns.reportIf _ _).bind fun _ => ih).congr ?_
    simp only [topLevelFindings, Members.keys, List.map_cons, List.filter_cons]
    cases SectionKey.known.contains e.1 <;> rfl

theorem updates_addImport (here : Location) (v : Json) :
    Updates .imports (addImport here v) fun ids =>
      liftM (Json.requireText here v) >>= fun id : String => Pure.pure (ids ++ [id]) :=
  .bind_value (.lift _) fun _ => .change fun _ => rfl

theorem updates_addImports (here : Location) (v : Json) :
    Updates .imports (addImports here v) fun ids => (ids ++ ·) <$> resolveImports here v := by
  have helements (i : Nat) (vs : List Json) :
      Updates .imports (forElements addImport here i vs) fun ids =>
        (ids ++ ·) <$> (liftM (Json.requireTexts here i vs) : Resolve (List String)) := by
    induction vs generalizing i with
    | nil =>
      exact Updates.pure.congr fun ids => congrArg (Resolve.ok · []) (List.append_nil ids).symm
    | cons v vs ih =>
      refine ((updates_addImport (here.index i) v).bind (ih (i + 1))).congr fun ids => ?_
      rw [Json.requireTexts]
      cases Json.requireText (here.index i) v with
      | error e => rfl
      | ok id =>
        cases Json.requireTexts here (i + 1) vs with
        | error e => rfl
        | ok ids' => exact congrArg (Resolve.ok · []) (List.append_assoc ids [id] ids')
  refine (Updates.bind_value (.lift _) fun vs => helements 0 vs).congr fun ids => ?_
  rw [resolveImports, map_bind]

/-- Named custom types are no part of the model. -/
theorem returns_buildRegistry (here : Location) (v : Json) :
    Returns p (buildRegistry here v) (resolveRegistry here v) := by
  have hmember (registry : Registry) (there : Location) (name : String) (w : Json) :=
    (Returns.take (p := p) (resolveNamedType there name w)).bind fun t =>
      (Returns.reportIf (registry.contains name) (.redefined .customType name)).bind fun _ =>
        Returns.pure (registry.insert name t)
  refine (ActsOn.foldMembers hmember NameMap.empty here v).congr fun a => ?_
  rw [resolveRegistry, resolveSection, map_bind]
  refine bind_congr fun ms => Resolve.foldlM_map_eq (fun registry => (registry, a))
    (fun registry e => ?_) ms NameMap.empty
  unfold declare
  split_ifs <;> rfl

theorem updates_addEntity {p : Part (NameMap α)} {s : Section} {entity : α → Entity}
    (hp : p.Holds s entity) (what : Defined) (name : String) (a : α) :
    Updates p (addEntity s what name (entity a)) fun m => .ok (m.insert (entity a).name a)
      (if m.contains name then [.redefined what name] else []) := by
  have hlook : ActsOn p (look (·.find? s name)) fun m => pure ((m.find? name).map entity, m) :=
    ActsOn.look (hp.find?_eq · name)
  have hadd : ActsOn p (change (·.add (entity a))) fun m =>
      pure ((), m.insert (entity a).name a) := ActsOn.change (hp.add_eq · a)
  refine (hlook.bind fun _ => (ActsOn.reportIf _ _).bind fun _ => hadd).congr fun m => ?_
  rw [pure_bind, Option.isSome_map, NameMap.isSome_find?]
  rfl

/-- A section of entities, which may hold some already. -/
theorem updates_addSection {p : Part (NameMap α)} {s : Section} {entity : α → Entity}
    {resolve : Location → String → Json → Resolve α} (hp : p.Holds s entity)
    (hname : ∀ here name v a fs, resolve here name v = .ok a fs → (entity a).name = name)
    (what : Defined) (here : Location) (v : Json) :
    Updates p (addSection s what entity resolve here v) fun m =>
      liftM (Json.requireObject here v) >>= fun ms : Members =>
        ms.foldlM (declare (.redefined what) resolve here) m := by
  refine (Updates.foldMembers (fun there name w => Updates.bind_value (.take _) fun a =>
    updates_addEntity hp what name a) here v).congr fun m => bind_congr fun ms => ?_
  congr 1
  funext m e
  by_cases hc : isComment e.1
  · rw [if_pos hc, declare, if_pos hc]
  · rw [if_neg hc, Resolve.declare_of_not_isComment hc]
    cases hr : resolve (here.key e.1) e.1 e.2 with
    | fail e => rfl
    | ok a fs => rw [Resolve.ok_bind, Resolve.ok_bind, hname _ _ _ _ _ hr]

theorem updates_addProperties (registry : Registry) (here : Location) (v : Json) :
    Updates .properties (addProperties registry here v) fun m =>
      liftM (Json.requireObject here v) >>= fun ms : Members =>
        ms.foldlM (declare (.redefined .property) (resolveProperty registry) here) m :=
  updates_addSection Part.holds_properties (fun _ _ _ _ fs h =>
    name_of_resolveProperty (P := fun _ => True) ⟨fs, h, fun _ _ => trivial⟩) .property here v

theorem updates_addItems (registry : Registry) (here : Location) (v : Json) :
    Updates .items (addItems registry here v) fun m =>
      liftM (Json.requireObject here v) >>= fun ms : Members =>
        ms.foldlM (declare (.redefined .item) (resolveItem registry) here) m :=
  updates_addSection Part.holds_items (fun _ _ _ _ fs h =>
    name_of_resolveItem (P := fun _ => True) ⟨fs, h, fun _ _ => trivial⟩) .item here v

theorem updates_addTargets (here : Location) (v : Json) :
    Updates .targets (addTargets here v) fun m =>
      liftM (Json.requireObject here v) >>= fun ms : Members =>
        ms.foldlM (declare (.redefined .target) resolveTarget here) m :=
  updates_addSection Part.holds_targets (fun _ _ _ _ fs h =>
    name_of_resolveTarget (P := fun _ => True) ⟨fs, h, fun _ _ => trivial⟩) .target here v

end Loading

/-! ## Groups on items -/

/-- Attaches metadata to an item; metadata of that name is reported, and replaced. -/
def Item.attachReporting (i : Item) (m : Metadata) : Resolve Item :=
  .ok (i.attach m)
    (if i.metadata.contains m.name then [.metadataRedefined m.name i.name] else [])

/-- Attaches declarations to the item of a name, in order, as `Loading.attach` does one by one. -/
def attachAll (owner : String) (decls : List Metadata) (items : NameMap Item) :
    Resolve (NameMap Item) :=
  match items.find? owner with
  | none => pure items
  | some i => do
    let i ← decls.foldlM Item.attachReporting i
    pure (items.modify owner fun _ => i)

/-- The declarations of a group, owned by one item. -/
def resolveDeclarations (registry : Registry) (owner : String) (here : Location) :
    Members → Resolve (List Metadata)
  | [] => pure []
  | (key, v) :: ms => do
    if key = appliesTo || isComment key then resolveDeclarations registry owner here ms
    else if isDirective key then
      Resolve.report (.unknownGroupDirective key here)
      resolveDeclarations registry owner here ms
    else
      let m ← resolveMetadata registry owner (here.key key) key v
      let decls ← resolveDeclarations registry owner here ms
      pure (m :: decls)

/-- Creates the listed items that do not exist yet. -/
def ensureItems (names : List String) (items : NameMap Item) : NameMap Item :=
  names.foldl (fun m name => m.ensure name { name }) items

/-- Attaches the declarations of a group to its first item and copies to the others. -/
def distribute (first : String) (others : List String) (decls : List Metadata)
    (items : NameMap Item) : Resolve (NameMap Item) := do
  let items ← others.foldlM
    (fun items owner => attachAll owner (decls.map (·.copyFor owner)) items) items
  -- the first owner may be listed again, and its own declarations replace its copies
  attachAll first decls items

/-- Applies one group to the items, as `Loading.applyGroup` does to those of the model. -/
def applyGroup (registry : Registry) (here : Location) (items : NameMap Item) (v : Json) :
    Resolve (NameMap Item) := do
  let ms ← Json.requireObject here v
  match Members.find? ms appliesTo with
  | none => .ok items [.groupWithoutOwners here]
  | some listed =>
    match ← Json.requireStrings (here.key appliesTo) listed with
    | [] => .ok items [.groupAppliesToNone here]
    | name :: names =>
      let items := ensureItems (name :: names) items
      let first := ownerName items name
      let decls ← resolveDeclarations registry first here ms
      distribute first (names.map (ownerName items)) decls items

/-- Applies groups, which are counted from `i`, one after the other. -/
def applyGroups (registry : Registry) (here : Location) (i : Nat) (items : NameMap Item) :
    List Json → Resolve (NameMap Item)
  | [] => pure items
  | v :: vs => do
    let items ← applyGroup registry (here.index i) items v
    applyGroups registry here (i + 1) items vs

/-- The items after the groups of a section. -/
def resolveGroups (registry : Registry) (items : NameMap Item) (here : Location) (v : Json) :
    Resolve (NameMap Item) := do
  let vs ← Json.requireArray here v
  applyGroups registry here 0 items vs

/-- Items that are created later do not change the name that an item carries. -/
theorem ownerName_ensureItems {items : NameMap Item} {name : String}
    (h : items.contains name = true) (names : List String) :
    ownerName (ensureItems names items) name = ownerName items name := by
  induction names generalizing items with
  | nil => rfl
  | cons n names ih =>
    have hfind : (items.ensure n { name := n }).find? name = items.find? name :=
      NameMap.find?_ensure_of_contains h
    have hn : (items.ensure n { name := n }).contains name = true := by
      rw [← NameMap.isSome_find?, hfind, NameMap.isSome_find?, h]
    change ownerName (ensureItems names (items.ensure n { name := n })) name = _
    rw [ih hn, ownerName, hfind, ownerName]

theorem attachAll_nil (owner : String) (items : NameMap Item) :
    attachAll owner [] items = pure items := by
  unfold attachAll
  cases h : items.find? owner with
  | none => rfl
  | some i =>
    have hsame : items.modify owner (fun _ => i) = items :=
      (NameMap.modify_congr fun j hj => Option.some.inj (h.symm.trans hj)).trans NameMap.modify_id
    simp only [List.foldlM_nil, pure_bind, hsame]

/-- Attaching one declaration after the other is attaching them all. -/
theorem attachAll_cons (owner : String) (d : Metadata) (decls : List Metadata)
    (items : NameMap Item) :
    attachAll owner (d :: decls) items = attachAll owner [d] items >>= attachAll owner decls := by
  cases h : items.find? owner with
  | none => simp only [attachAll, h, pure_bind]
  | some i =>
    have hone : attachAll owner [d] items =
        i.attachReporting d >>= fun j => pure (items.modify owner fun _ => j) := by
      simp only [attachAll, h, List.foldlM_cons, List.foldlM_nil, bind_pure]
    have hnext (j : Item) : attachAll owner decls (items.modify owner fun _ => j) =
        decls.foldlM Item.attachReporting j >>= fun k => pure (items.modify owner fun _ => k) := by
      simp only [attachAll, NameMap.find?_modify_self, h, Option.map_some, NameMap.modify_modify,
        Function.comp_def]
    simp only [hone, bind_assoc, pure_bind, hnext]
    simp only [attachAll, h, List.foldlM_cons, bind_assoc]

theorem attachAll_singleton (owner : String) (d : Metadata) (items : NameMap Item) :
    attachAll owner [d] items =
      match items.find? owner with
      | none => pure items
      | some i => .ok (items.modify owner (·.attach d))
          (if i.metadata.contains d.name then [.metadataRedefined d.name i.name] else []) := by
  rw [attachAll]
  cases h : items.find? owner with
  | none => rfl
  | some i =>
    have hconst : items.modify owner (·.attach d) = items.modify owner fun _ => i.attach d :=
      NameMap.modify_congr fun j hj => congrArg (·.attach d) (Option.some.inj (hj.symm.trans h))
    simp only [hconst, List.foldlM_cons, List.foldlM_nil, Item.attachReporting, bind_pure]
    exact congrArg (Resolve.ok _) (List.append_nil _)

namespace Loading

theorem actsOn_claim (name : String) :
    ActsOn .items (claim name) fun items =>
      pure (ownerName (items.ensure name { name }) name, items.ensure name { name }) := by
  have hcreate : Updates .items (change fun m => { m with items := m.items.ensure name { name } })
      fun items => pure (items.ensure name { name }) := .change fun _ => rfl
  have hname : ActsOn .items (look fun m => ownerName m.items name) fun items =>
      pure (ownerName items name, items) := .look fun _ => rfl
  exact (ActsOn.bind hcreate fun _ => hname).congr fun items => by rw [map_pure, pure_bind]

theorem actsOn_mapM_claim (names : List String) :
    ActsOn .items (names.mapM claim) fun items =>
      pure (names.map (ownerName (ensureItems names items)), ensureItems names items) := by
  induction names with
  | nil => exact .pure []
  | cons name names ih =>
    rw [List.mapM_cons]
    refine ((actsOn_claim name).bind fun _ => ih.bind fun _ => ActsOn.pure _).congr
      fun items => ?_
    rw [pure_bind, pure_bind, ← ownerName_ensureItems NameMap.contains_ensure_self names]
    rfl

theorem returns_declarations {α : Type} {p : Part α} (registry : Registry) (owner : String)
    (here : Location) (ms : Members) :
    Returns p (declarations registry owner here ms)
      (resolveDeclarations registry owner here ms) := by
  induction ms with
  | nil => exact .pure []
  | cons e ms ih =>
    rw [declarations, resolveDeclarations]
    split_ifs
    · exact ih
    · exact (Returns.report _).bind fun _ => ih
    · exact (Returns.take _).bind fun m => ih.bind fun decls => .pure (m :: decls)

theorem updates_attach (owner : String) (d : Metadata) :
    Updates .items (attach owner d) (attachAll owner [d]) := by
  have hlook : ActsOn .items (look (·.items.find? owner)) fun items =>
      pure (items.find? owner, items) := .look fun _ => rfl
  have hreplace : Updates .items
      (change fun m => { m with items := m.items.modify owner (·.attach d) }) fun items =>
        pure (items.modify owner (·.attach d)) := .change fun _ => rfl
  have hfound (found : Option Item) : Updates .items (match found with
      | none => pure ()
      | some i => do
        reportIf (i.metadata.contains d.name) (.metadataRedefined d.name i.name)
        change fun m => { m with items := m.items.modify owner (·.attach d) }) fun items =>
      match found with
      | none => pure items
      | some i => .ok (items.modify owner (·.attach d))
          (if i.metadata.contains d.name then [.metadataRedefined d.name i.name] else []) := by
    cases found with
    | none => exact .pure
    | some i =>
      exact ((Updates.reportIf _ _).bind hreplace).congr fun items =>
        congrArg (Resolve.ok _) (List.append_nil _)
  refine (ActsOn.bind hlook hfound).congr fun items => ?_
  rw [pure_bind, attachAll_singleton]

theorem updates_forM_attach (owner : String) (decls : List Metadata) :
    Updates .items (decls.forM (attach owner)) (attachAll owner decls) := by
  induction decls with
  | nil => exact Updates.pure.congr fun items => (attachAll_nil owner items).symm
  | cons d decls ih =>
    exact ((updates_attach owner d).bind ih).congr fun items =>
      (attachAll_cons owner d decls items).symm

theorem updates_distribute (first : String) (others : List String) (decls : List Metadata) :
    Updates .items (distribute first others decls)
      (BuildVocabulary.distribute first others decls) := by
  have hcopies (owner : String) :=
    updates_forM_attach owner (decls.map fun d : Metadata => d.copyFor owner)
  exact (Updates.forM hcopies others).bind (updates_forM_attach first decls)

theorem updates_applyGroup (registry : Registry) (here : Location) (v : Json) :
    Updates .items (applyGroup registry here v) fun items =>
      BuildVocabulary.applyGroup registry here items v := by
  unfold applyGroup BuildVocabulary.applyGroup
  refine .bind_value (.lift _) fun ms => ?_
  cases Members.find? ms appliesTo with
  | none => exact .report _
  | some listed =>
    refine .bind_value (.lift _) fun names => ?_
    cases names with
    | nil => exact .report _
    | cons name names =>
      have hdeclared (first : String) (others : List String) : Updates .items (do
          let decls ← declarations registry first here ms
          distribute first others decls) fun items =>
            resolveDeclarations registry first here ms >>= fun decls =>
              BuildVocabulary.distribute first others decls items :=
        .bind_value (returns_declarations registry first here ms) (updates_distribute first others)
      have hclaimed := (actsOn_claim name).bind fun first =>
        (actsOn_mapM_claim names).bind fun others => hdeclared first others
      refine hclaimed.congr fun items => ?_
      rw [pure_bind, pure_bind, ← ownerName_ensureItems NameMap.contains_ensure_self names]
      rfl

theorem updates_applyGroups (registry : Registry) (here : Location) (v : Json) :
    Updates .items (applyGroups registry here v) fun items =>
      resolveGroups registry items here v := by
  have helements (i : Nat) (vs : List Json) :
      Updates .items (forElements (applyGroup registry) here i vs) fun items =>
        BuildVocabulary.applyGroups registry here i items vs := by
    induction vs generalizing i with
    | nil => exact .pure
    | cons v vs ih => exact (updates_applyGroup registry (here.index i) v).bind (ih (i + 1))
  exact .bind_value (.lift _) fun vs => helements 0 vs

end Loading

/-! ## Documents -/

def resolveMembers (ms : Members) : Resolve Model := do
  Resolve.ok () (topLevelFindings ms)
  let imports ← sectionOr ms SectionKey.imports [] resolveImports
  let registry ← sectionOr ms SectionKey.customTypes .empty resolveRegistry
  let properties ← sectionOr ms SectionKey.properties .empty
    (resolveSection (.redefined .property) (resolveProperty registry))
  let items ← sectionOr ms SectionKey.items .empty
    (resolveSection (.redefined .item) (resolveItem registry))
  let items ← sectionOr ms SectionKey.groups items (resolveGroups registry items)
  let targets ← sectionOr ms SectionKey.targets .empty
    (resolveSection (.redefined .target) resolveTarget)
  pure { properties, items, targets, imports }

def resolveDocument : Json → Resolve Model
  | .object ms => resolveMembers ms
  | v => .fail (.notAnObject v.shape)

def Resolve.outcome : Resolve Model → Except LoadError Outcome
  | .ok model fs => .ok ⟨model, fs.map Finding.diagnostic⟩
  | .fail e => .error e

/-- The phases of a document, each of which has replaced its part. -/
theorem Loading.run_document (ms : Members) :
    (document ms).run {} = (((), ·) <$> resolveMembers ms).into .whole {} := by
  have hregistry := Returns.sectionOr (p := .whole) returns_buildRegistry ms SectionKey.customTypes
    .empty
  have himports :
      sectionOr ms SectionKey.imports [] (fun here v => ([] ++ ·) <$> resolveImports here v) =
        sectionOr ms SectionKey.imports [] resolveImports := by
    simp only [List.nil_append, id_map']
  have hphases := Updates.bind_value (returns_reportUnknownKeys ms) fun _ =>
    (Updates.sectionOr updates_addImports ms SectionKey.imports).widen.bind <|
    .bind_value hregistry fun registry =>
    (Updates.sectionOr (updates_addProperties registry) ms SectionKey.properties).widen.bind <|
    (Updates.sectionOr (updates_addItems registry) ms SectionKey.items).widen.bind <|
    (Updates.sectionOr (updates_applyGroups registry) ms SectionKey.groups).widen.bind
    (Updates.sectionOr updates_addTargets ms SectionKey.targets).widen
  refine (hphases {}).trans (congrArg (fun r : Resolve Model => (((), ·) <$> r).into .whole {}) ?_)
  simp only [bind_map_left]
  rw [resolveMembers, ← himports]
  rfl

theorem load_eq (doc : Json) : load doc = (resolveDocument doc).outcome := by
  cases doc with
  | object ms =>
    rw [load, Loading.run_document, resolveDocument]
    cases resolveMembers ms with
    | ok m fs =>
      rw [Resolve.map_ok]
      rfl
    | fail e => rfl
  | _ => rfl

end BuildVocabulary

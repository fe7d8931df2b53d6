import BuildVocabulary.Proofs.Load.Entry
import BuildVocabulary.Proofs.Load.Sections

/-!
# What metadata groups do to items

A group creates the listed items that are missing, and attaches its declarations to each listed
item, under the name that the item carries itself.

* `attachTo`: the items after declarations were attached to one of them;
* `eq_of_distribute`: what a group does to the items once its declarations are known;
* `KeptByGroups`: conditions under which groups keep a property of every item;
* **`Resolve.Gives.applyGroups`**: such a property holds after all groups of a section.
-/

namespace BuildVocabulary

open Json (Location Members)

variable {P : Finding → Prop} {registry : Registry} {here : Location} {items : NameMap Item}

/-! ## Attaching -/

/-- The items after declarations were attached to the item of a name. -/
def attachTo (owner : String) (decls : List Metadata) (items : NameMap Item) : NameMap Item :=
  items.modify owner fun i => decls.foldl Item.attach i

theorem eq_of_attachAll {owner : String} {decls : List Metadata} {items' : NameMap Item}
    (h : (attachAll owner decls items).Gives P items') : items' = attachTo owner decls items := by
  unfold attachAll at h
  split at h
  next hnone =>
    rw [Resolve.gives_pure] at h
    have hsame : attachTo owner decls items = items.modify owner id :=
      NameMap.modify_congr fun a ha => by simp [hnone] at ha
    rw [hsame, NameMap.modify_id, h]
  next i hi =>
    simp only [Resolve.gives_bind, Resolve.gives_pure] at h
    obtain ⟨j, hj, rfl⟩ := h
    have hj : j = decls.foldl Item.attach i := hj.foldlM_eq fun i d j hstep =>
      (Resolve.gives_ok.mp hstep).1.symm
    refine NameMap.modify_congr fun a ha => ?_
    rw [hi] at ha
    rw [hj, Option.some.inj ha]

/-- The other owners get their copies first, in the order in which they are listed. -/
theorem eq_of_distribute {first : String} {others : List String} {decls : List Metadata}
    {items' : NameMap Item} (h : (distribute first others decls items).Gives P items') :
    items' = attachTo first decls
      (others.foldl (fun items o => attachTo o (decls.map (·.copyFor o)) items) items) := by
  simp only [distribute, Resolve.gives_bind] at h
  obtain ⟨copied, hcopied, h⟩ := h
  rw [eq_of_attachAll h, hcopied.foldlM_eq fun _ _ _ => eq_of_attachAll]

/-- Each declaration of a group is resolved for the owner. -/
theorem exists_of_resolveDeclarations {owner : String} {ms : Members} {decls : List Metadata}
    (h : (resolveDeclarations registry owner here ms).Gives P decls) :
    ∀ d ∈ decls, ∃ there name v, (resolveMetadata registry owner there name v).Gives P d := by
  induction ms generalizing decls with
  | nil =>
    rw [resolveDeclarations, Resolve.gives_pure] at h
    simp [← h]
  | cons e ms ih =>
    rw [resolveDeclarations] at h
    split_ifs at h
    · exact ih h
    · simp only [Resolve.gives_bind] at h
      obtain ⟨_, -, h⟩ := h
      exact ih h
    · simp only [Resolve.gives_bind, Resolve.gives_pure] at h
      obtain ⟨d, hd, ds, hds, rfl⟩ := h
      rw [List.forall_mem_cons]
      exact ⟨⟨_, _, _, hd⟩, ih hds⟩

/-! ## Owners -/

/-- A name is spelled as in the map, if the map has it. -/
def NameMap.SpelledAs {α : Type} (m : NameMap α) (name : String) : Prop :=
  m.All fun key _ => SameName key name → key = name

theorem NameMap.SpelledAs.modify {α : Type} {m : NameMap α} {name owner : String} {f : α → α}
    (h : m.SpelledAs name) : (m.modify owner f).SpelledAs name :=
  All.modify h fun key a hmem _ => h (key, a) hmem

/-- The name that an item carries is the spelling that it is stored under. -/
theorem spelledAs_ownerName (h : items.All fun key i => key = i.name) (name : String) :
    items.SpelledAs (ownerName items name) := by
  intro e he hs
  unfold ownerName at hs ⊢
  cases hi : items.find? name with
  | none =>
    rw [hi] at hs
    have hfound : items.find? name = some e.2 := NameMap.find?_eq_some_iff.mpr ⟨e.1, he, hs⟩
    rw [hi] at hfound
    cases hfound
  | some i =>
    obtain ⟨key, hkey, -⟩ := NameMap.find?_eq_some_iff.mp hi
    have hname : key = i.name := h _ hkey
    subst hname
    rw [hi] at hs
    exact congrArg Prod.fst (NameMap.eq_of_sameName he hkey hs)

/-! ## Properties of every item -/

/-- Groups keep a property of items that new items have, and that stays when metadata of a certain
kind is attached. Declarations and their copies are of that kind. -/
structure KeptByGroups (P : Finding → Prop) (registry : Registry) (Q : String → Item → Prop)
    (D : String → Metadata → Prop) : Prop where
  named : ∀ key i, Q key i → key = i.name
  created : ∀ name, Q name { name }
  attached : ∀ key i d, Q key i → D key d → Q key (i.attach d)
  declared : ∀ owner there name v d,
    (resolveMetadata registry owner there name v).Gives P d → D owner d
  copied : ∀ owner key d, D owner d → D key (d.copyFor key)

namespace KeptByGroups

variable {Q : String → Item → Prop} {D : String → Metadata → Prop}

theorem attachTo (hk : KeptByGroups P registry Q D) {owner : String} {decls : List Metadata}
    (h : items.All Q) (howner : items.SpelledAs owner) (hd : ∀ d ∈ decls, D owner d) :
    (attachTo owner decls items).All Q := by
  refine NameMap.All.modify h fun key i hi hs => ?_
  obtain rfl : key = owner := howner _ hi hs
  exact List.foldlRecOn decls Item.attach (h _ hi) fun j hj d hmem =>
    hk.attached key j d hj (hd d hmem)

theorem distribute (hk : KeptByGroups P registry Q D) {first : String} {others : List String}
    {decls : List Metadata} {items' : NameMap Item}
    (h : (distribute first others decls items).Gives P items') (hQ : items.All Q)
    (hfirst : items.SpelledAs first) (hothers : ∀ o ∈ others, items.SpelledAs o)
    (hd : ∀ d ∈ decls, D first d) : items'.All Q := by
  rw [eq_of_distribute h]
  clear h items'
  -- attaching changes no spelling, so every owner stays spelled as in the map
  induction others generalizing items with
  | nil => exact hk.attachTo hQ hfirst hd
  | cons o others ih =>
    have hcopies : ∀ d ∈ decls.map (·.copyFor o), D o d := by
      rw [List.forall_mem_map]
      exact fun d hmem => hk.copied first o d (hd d hmem)
    have hQ' := hk.attachTo hQ (hothers o List.mem_cons_self) hcopies
    exact ih hQ' hfirst.modify fun o' ho' => (hothers o' (List.mem_cons_of_mem _ ho')).modify

theorem ensureItems (hk : KeptByGroups P registry Q D) (h : items.All Q) (names : List String) :
    (ensureItems names items).All Q :=
  List.foldlRecOn names _ h fun _ hm name _ => NameMap.All.ensure hm (hk.created name)

theorem applyGroup (hk : KeptByGroups P registry Q D) {v : Json} {items' : NameMap Item}
    (h : (applyGroup registry here items v).Gives P items') (hQ : items.All Q) :
    items'.All Q := by
  unfold BuildVocabulary.applyGroup at h
  rw [Resolve.gives_bind] at h
  obtain ⟨ms, -, h⟩ := h
  split at h
  next => exact (Resolve.gives_ok.mp h).1 ▸ hQ
  next listed _ =>
    rw [Resolve.gives_bind] at h
    obtain ⟨names, -, h⟩ := h
    cases names with
    | nil => exact (Resolve.gives_ok.mp h).1 ▸ hQ
    | cons name names =>
      rw [Resolve.gives_bind] at h
      obtain ⟨decls, hdecls, h⟩ := h
      have hall := hk.ensureItems hQ (name :: names)
      have hspelled := spelledAs_ownerName (hall.mono hk.named)
      refine hk.distribute h hall (hspelled name) ?_ fun d hd => ?_
      · rw [List.forall_mem_map]
        exact fun n _ => hspelled n
      · obtain ⟨there, key, w, hw⟩ := exists_of_resolveDeclarations hdecls d hd
        exact hk.declared _ there key w d hw

end KeptByGroups

/-- **What groups keep holds after all groups of a section.** -/
theorem Resolve.Gives.applyGroups {Q : String → Item → Prop} {D : String → Metadata → Prop}
    (hk : KeptByGroups P registry Q D) {vs : List Json} {n : ℕ} {items' : NameMap Item}
    (h : (applyGroups registry here n items vs).Gives P items') (hQ : items.All Q) :
    items'.All Q := by
  induction vs generalizing items n with
  | nil =>
    rw [BuildVocabulary.applyGroups, gives_pure] at h
    exact h ▸ hQ
  | cons v vs ih =>
    rw [BuildVocabulary.applyGroups, gives_bind] at h
    obtain ⟨between, hstep, h⟩ := h
    exact ih h (hk.applyGroup hstep hQ)

end BuildVocabulary

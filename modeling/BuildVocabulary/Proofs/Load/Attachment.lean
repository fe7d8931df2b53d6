import BuildVocabulary.Proofs.Load.Acceptance
import BuildVocabulary.Proofs.Load.Creation
import BuildVocabulary.Proofs.Load.Declaration
import BuildVocabulary.Proofs.NameMap.Insertions

/-!
# Attaching the declarations of a group

A group attaches copies of its declarations to its other owners, and then the declarations to the
first one, which may be listed again among the others. Attaching over declarations of the same names
leaves no trace of them, so each item receives one list of metadata, whatever the order.

* `forall₂_of_resolveDeclarations`: the declarations of a group, one a member;
* `foldl_attach_foldl_attach`: declarations attached over others of the same names;
* `receive`, `toList_of_distribute`: what happens to the entry of an item;
* `toList_ensureItems`: items that a group creates;
* **`toList_of_applyGroup`**: the items after a group, entry by entry.
-/

namespace BuildVocabulary

open Json (Location Members)

variable {P : Finding → Prop} {registry : Registry} {here : Location} {items items' : NameMap Item}
  {ms : Members} {first : String} {others : List String} {decls : List Metadata}

/-! ## Declarations of a group -/

/-- The members of a group without its directives. -/
def undirected (ms : Members) : Members := ms.filter fun e => !isDirective e.1

/-- The declarations of a group are resolved one by one. -/
theorem forall₂_of_resolveDeclarations {owner : String}
    (h : (resolveDeclarations registry owner here ms).Gives P decls) :
    List.Forall₂ (fun e d => (resolveMetadata registry owner (here.key e.1) e.1 e.2).Gives P d)
      (definitions (undirected ms)) decls := by
  induction ms generalizing decls with
  | nil =>
    rw [resolveDeclarations, Resolve.gives_pure] at h
    rw [← h]
    exact .nil
  | cons e ms ih =>
    rw [resolveDeclarations] at h
    split_ifs at h with hskip hd
    · have hdrop : definitions (undirected (e :: ms)) = definitions (undirected ms) := by
        rcases (Bool.or_eq_true _ _).mp hskip with hkey | hc
        · have hkey : isDirective e.1 = true := by
            rw [of_decide_eq_true hkey]
            decide
          simp [undirected, hkey]
        · by_cases hd : isDirective e.1 = true <;> simp [undirected, definitions, hd, hc]
      rw [hdrop]
      exact ih h
    · simp only [Resolve.gives_bind] at h
      obtain ⟨_, -, h⟩ := h
      have hdrop : definitions (undirected (e :: ms)) = definitions (undirected ms) := by
        simp [undirected, hd]
      rw [hdrop]
      exact ih h
    · simp only [Resolve.gives_bind, Resolve.gives_pure] at h
      obtain ⟨d, hd', ds, hds, rfl⟩ := h
      have hc : isComment e.1 = false := by simp_all
      have hkeep : definitions (undirected (e :: ms)) = e :: definitions (undirected ms) := by
        simp [undirected, definitions, hd, hc]
      rw [hkeep]
      exact .cons hd' (ih hds)

/-- The owner of a declaration makes no other difference. -/
theorem gives_resolveMetadata_owner {owner name : String} {v : Json} {d : Metadata}
    (h : (resolveMetadata registry owner here name v).Gives P d) (other : String) :
    (resolveMetadata registry other here name v).Gives P { d with item := other } := by
  cases v with
  | text s =>
    rw [resolveMetadata, Resolve.gives_pure] at h ⊢
    rw [← h]
  | object ms =>
    simp only [resolveMetadata, Resolve.gives_bind, Resolve.gives_pure] at h ⊢
    obtain ⟨f, hf, rfl⟩ := h
    exact ⟨f, hf, rfl⟩
  | _ => exact absurd h Resolve.not_gives_fail

/-! ## Attaching to one item -/

theorem foldl_attach (i : Item) : decls.foldl Item.attach i =
    { i with metadata := i.metadata.insertAll (decls.map fun d => (d.name, d)) } := by
  induction decls using List.reverseRecOn with
  | nil => rfl
  | append_singleton ds d ih =>
    rw [List.foldl_concat, ih, List.map_append, List.map_singleton, NameMap.insertAll_concat]
    rfl

/-- Declarations that are attached over others of the same names leave no trace of them. -/
theorem foldl_attach_foldl_attach {copies : List Metadata}
    (h : copies.map (·.name) = decls.map (·.name)) (i : Item) :
    decls.foldl Item.attach (copies.foldl Item.attach i) = decls.foldl Item.attach i := by
  have hnames : (copies.map fun d => (d.name, d)).map Prod.fst =
      (decls.map fun d => (d.name, d)).map Prod.fst := by
    rw [List.map_map, List.map_map]
    exact h
  simp only [foldl_attach, NameMap.insertAll_insertAll hnames]

theorem map_name_copyFor (owner : String) :
    (decls.map (·.copyFor owner)).map (·.name) = decls.map (·.name) := by
  rw [List.map_map]
  rfl

/-! ## Attaching to every listed item -/

/-- The declarations as an item gets them: as they are written if it is the first owner, and else as
copies. -/
def share (first : String) (decls : List Metadata) (owner : String) : List Metadata :=
  if SameName owner first then decls else decls.map (·.copyFor owner)

/-- What a group does to the entry of an item. -/
def receive (first : String) (others : List String) (decls : List Metadata) (e : String × Item) :
    String × Item :=
  if named (first :: others) e.1 then (e.1, (share first decls e.1).foldl Item.attach e.2) else e

/-- The copies that an item gets, however often it is listed. -/
theorem foldl_modifyEntry_copies {e : String × Item} (he : ∀ o ∈ others, SameName e.1 o → e.1 = o) :
    others.foldl (fun e o => NameMap.modifyEntry o
        (fun i => (decls.map (·.copyFor o)).foldl Item.attach i) e) e =
      if named others e.1 then (e.1, (decls.map (·.copyFor e.1)).foldl Item.attach e.2) else e := by
  induction others using List.reverseRecOn with
  | nil => rfl
  | append_singleton others o ih =>
    rw [List.foldl_concat, ih fun o' ho' => he o' (List.mem_append_left _ ho'), named_append,
      named_cons]
    by_cases hs : SameName e.1 o
    · obtain rfl : e.1 = o := he o (by simp) hs
      rw [decide_eq_true hs, Bool.true_or, Bool.or_true, if_pos rfl]
      split_ifs
      · exact (if_pos rfl).trans (congrArg (Prod.mk e.1) (foldl_attach_foldl_attach rfl e.2))
      · exact if_pos rfl
    · rw [decide_eq_false (mt SameName.symm hs), Bool.false_or]
      change NameMap.modifyEntry o _ _ = if (named others e.1 || false) = true then _ else _
      rw [Bool.or_false]
      split_ifs <;> exact if_neg hs

theorem toList_foldl_attachTo (D : String → List Metadata) :
    (others.foldl (fun items o => attachTo o (D o) items) items).toList =
      items.toList.map fun e => others.foldl
        (fun e o => NameMap.modifyEntry o (fun i => (D o).foldl Item.attach i) e) e := by
  induction others generalizing items with
  | nil => exact (List.map_id _).symm
  | cons o others ih =>
    rw [List.foldl_cons, ih, attachTo, NameMap.modify, List.map_map]
    rfl

/-- A group changes the entries of the listed items in place. Copies come first, and the first owner
gets its own declarations over them. -/
theorem toList_of_distribute {owner : String} {owners : List String}
    (h : (distribute owner owners decls items).Gives P items') (howner : items.SpelledAs owner)
    (howners : ∀ o ∈ owners, items.SpelledAs o) :
    items'.toList = items.toList.map (receive owner owners decls) := by
  rw [eq_of_distribute h]
  change List.map _ (List.foldl _ items owners).toList = _
  rw [toList_foldl_attachTo (fun o => decls.map (·.copyFor o)), List.map_map]
  refine List.map_congr_left fun e he => ?_
  rw [Function.comp_apply, foldl_modifyEntry_copies fun o ho => howners o ho e he, receive, share]
  by_cases hs : SameName e.1 owner
  · obtain rfl : e.1 = owner := howner e he hs
    rw [named_cons, decide_eq_true hs, Bool.true_or, if_pos rfl, if_pos hs]
    split_ifs
    · exact (if_pos rfl).trans
        (congrArg (Prod.mk e.1) (foldl_attach_foldl_attach (map_name_copyFor _) e.2))
    · exact if_pos rfl
  · rw [named_cons, decide_eq_false (mt SameName.symm hs), Bool.false_or, if_neg hs]
    split_ifs <;> exact if_neg hs

/-! ## Items of a group -/

/-- The listed names that no item has, each as it is listed first. -/
def createdNames (names : List String) (items : NameMap Item) : List String :=
  firsts (names.filter fun n => !items.contains n)

/-- The entry of an item of which only the name is known. -/
def nameOnly (name : String) : String × Item := (name, { name })

variable {names : List String}

theorem firsts_names (items : NameMap Item) : firsts items.names = items.names := by
  refine firsts_of_nodup ?_
  rw [NameMap.map_fold_names]
  exact items.keys_nodup

theorem contains_ensureItems {name : String} :
    (ensureItems names items).contains name = (items.contains name || named names name) := by
  rw [← named_names, names_ensureItems (firsts_names items).symm, named_firsts, named_append,
    named_names]

theorem contains_ensureItems_of_mem {name : String} (h : name ∈ names) (items : NameMap Item) :
    (ensureItems names items).contains name = true := by
  rw [contains_ensureItems, named_eq_true_iff.mpr ⟨name, h, .refl name⟩, Bool.or_true]

theorem exists_mem_ensureItems {name : String} (h : name ∈ names) (items : NameMap Item) :
    ∃ e ∈ (ensureItems names items).toList, SameName e.1 name := by
  obtain ⟨e, he⟩ := NameMap.exists_stored?_of_contains (contains_ensureItems_of_mem h items)
  exact ⟨e, NameMap.mem_of_stored? he⟩

theorem exists_toList_ensureItems (names : List String) (items : NameMap Item) :
    ∃ ns : List String, (ensureItems names items).toList = items.toList ++ ns.map nameOnly := by
  induction names using List.reverseRecOn with
  | nil => exact ⟨[], (List.append_nil _).symm⟩
  | append_singleton names name ih =>
    obtain ⟨ns, hns⟩ := ih
    rw [ensureItems, List.foldl_concat, ← ensureItems, NameMap.ensure]
    dsimp only
    split_ifs
    · exact ⟨ns, hns⟩
    · refine ⟨ns ++ [name], ?_⟩
      rw [hns, List.map_append, List.map_singleton, List.append_assoc, nameOnly]

theorem names_ensureItems_eq :
    (ensureItems names items).names = items.names ++ createdNames names items := by
  rw [names_ensureItems (firsts_names items).symm, firsts_append, firsts_names, createdNames]
  simp only [named_names]

/-- Items are created behind those that are there. -/
theorem toList_ensureItems : (ensureItems names items).toList =
    items.toList ++ (createdNames names items).map nameOnly := by
  obtain ⟨ns, hns⟩ := exists_toList_ensureItems names items
  have hfst : (ns.map nameOnly).map Prod.fst = ns := by
    rw [List.map_map]
    exact List.map_id _
  have hnames : (ensureItems names items).names = _ := names_ensureItems_eq
  rw [NameMap.names, hns, List.map_append, hfst] at hnames
  rw [hns, List.append_cancel_left hnames]

theorem all_ensureItems (h : items.All fun key i => key = i.name) (names : List String) :
    (ensureItems names items).All fun key i => key = i.name :=
  List.foldlRecOn names _ h fun _ hm _ _ => hm.ensure rfl

/-! ## One group -/

/-- What an item receives depends on the first owner and on whether the item is listed. -/
theorem receive_congr {owner : String} {owners : List String} (h : SameName owner first)
    (hnamed : ∀ n, named (owner :: owners) n = named (first :: others) n) :
    receive owner owners decls = receive first others decls := by
  funext e
  have hfirst : SameName e.1 owner ↔ SameName e.1 first :=
    ⟨fun he => he.trans h, fun he => he.trans h.symm⟩
  rw [receive, receive, hnamed, share, share]
  simp only [hfirst]

theorem sameName_ownerName (h : items.All fun key i => key = i.name) (name : String) :
    SameName (ownerName items name) name := by
  unfold ownerName
  cases hi : items.find? name with
  | none => exact .refl name
  | some i =>
    obtain ⟨key, hkey, hs⟩ := NameMap.find?_eq_some_iff.mp hi
    obtain rfl : key = i.name := h _ hkey
    exact hs

theorem ownerName_eq (h : items.All fun key i => key = i.name) {e : String × Item}
    (he : e ∈ items.toList) {name : String} (hs : SameName e.1 name) :
    ownerName items name = e.1 := by
  have hfind : items.find? name = some e.2 := NameMap.find?_eq_some_iff.mpr ⟨e.1, he, hs⟩
  rw [ownerName, hfind]
  exact (h e he).symm

/-- What a group does to the items, once its declarations are known. -/
theorem toList_of_applyGroup (hstored : items.All fun key i => key = i.name)
    (h : (applyGroup registry here items (.object ms)).Gives P items')
    (hlist : mentions (.object ms) = first :: others) :
    ∃ decls, (resolveDeclarations registry (ownerName (ensureItems (first :: others) items) first)
        here ms).Gives P decls ∧
      items'.toList = (ensureItems (first :: others) items).toList.map
        (receive first others decls) := by
  simp only [applyGroup, Resolve.gives_bind, Resolve.gives_lift, Json.requireObject_eq_ok] at h
  obtain ⟨_, ⟨⟩, h⟩ := h
  rw [mentions] at hlist
  cases hfind : Members.find? ms appliesTo with
  | none =>
    rw [hfind] at hlist
    cases hlist
  | some listed =>
    rw [hfind] at hlist h
    simp only [Resolve.gives_bind, Resolve.gives_lift] at h
    obtain ⟨names, hnames, h⟩ := h
    obtain rfl : names = first :: others := (listed_of_requireStrings hnames).symm.trans hlist
    simp only [Resolve.gives_bind] at h
    obtain ⟨decls, hdecls, h⟩ := h
    have hall := all_ensureItems hstored (first :: others)
    have hspelled := spelledAs_ownerName hall
    refine ⟨decls, hdecls, ?_⟩
    rw [toList_of_distribute h (hspelled first) (List.forall_mem_map.mpr fun n _ => hspelled n)]
    have hfolds : ((first :: others).map (ownerName (ensureItems (first :: others) items))).map
        fold = (first :: others).map fold := by
      rw [List.map_map]
      exact List.map_congr_left fun n _ => sameName_ownerName hall n
    refine congrArg (List.map · _) (receive_congr (sameName_ownerName hall first) fun n => ?_)
    rw [Bool.eq_iff_iff, named_iff_mem_map_fold, named_iff_mem_map_fold, ← hfolds]
    rfl

end BuildVocabulary

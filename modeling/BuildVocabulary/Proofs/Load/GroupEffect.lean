import BuildVocabulary.Proofs.Load.Attachment

/-!
# What a metadata group does to the items

Every listed item has the declarations of the group afterwards, as they are said last and resolved
for the item itself. Whatever is not listed or not declared stays as it is.

* `Receives`: the metadata of an item for a member of a group;
* `find?_of_receives`, `filter_of_receives`: what is found in an item under declared names, and
  what else it holds;
* `GroupEffect`: items, declared metadata and other metadata after a group;
* `applyGroup_relisted`, `applyGroup_again`: the same items listed otherwise, and the same group
  once more;
* **`group_attaches_to_listed`**: every group has this effect.
-/

namespace BuildVocabulary

open Json (Location Members)

variable {P : Finding → Prop} {registry : Registry} {here : Location} {items items' : NameMap Item}
  {ms : Members} {first : String} {others : List String} {decls : List Metadata}

/-! ## What each item receives -/

/-- An item receives metadata for a member of a group. It is resolved for the item, and deprecated
only if the item is the first owner. -/
def Receives (registry : Registry) (here : Location) (first name : String) (e : String × Json)
    (m : Metadata) : Prop :=
  ∃ d fs, resolveMetadata registry name (here.key e.1) e.1 e.2 = .ok d fs ∧
    m = if SameName name first then d else { d with deprecation := {} }

theorem Receives.name_eq {name : String} {e : String × Json} {m : Metadata}
    (h : Receives registry here first name e m) : m.name = e.1 ∧ m.item = name := by
  obtain ⟨d, fs, hd, rfl⟩ := h
  have hnames : d.name = e.1 ∧ d.item = name :=
    name_of_resolveMetadata (P := fun _ => True) ⟨fs, hd, fun _ _ => trivial⟩
  split_ifs <;> exact hnames

theorem forall₂_share {owner name : String}
    (h : (resolveDeclarations registry owner here ms).Gives P decls)
    (howner : SameName name owner → name = owner) (hfirst : SameName owner first) :
    List.Forall₂ (Receives registry here first name) (definitions (undirected ms))
      (share first decls name) := by
  have hdecls := forall₂_of_resolveDeclarations h
  unfold share
  by_cases hs : SameName name first
  · obtain rfl : name = owner := howner (hs.trans hfirst.symm)
    rw [if_pos hs]
    refine hdecls.imp fun e d ⟨fs, hd, _⟩ => ⟨d, fs, hd, ?_⟩
    rw [if_pos hs]
  · rw [if_neg hs, List.forall₂_map_right_iff]
    refine hdecls.imp fun e d hd => ?_
    obtain ⟨fs, hd, -⟩ := gives_resolveMetadata_owner hd name
    refine ⟨_, fs, hd, ?_⟩
    rw [if_neg hs]
    rfl

theorem map_eq_of_forall₂ {α β γ : Type} {f : α → γ} {g : β → γ} {xs : List α} {ys : List β}
    (h : List.Forall₂ (fun x y => g y = f x) xs ys) : ys.map g = xs.map f := by
  rw [← List.forall₂_eq_eq_eq, List.forall₂_map_left_iff, List.forall₂_map_right_iff]
  exact h.flip

theorem exists_find?_of_forall₂ {α β : Type} {R : α → β → Prop} {xs : List α} {ys : List β}
    {p : α → Bool} {q : β → Bool} {x : α} (h : List.Forall₂ R xs ys)
    (hpq : ∀ x y, R x y → p x = q y) (hx : xs.find? p = some x) :
    ∃ y, ys.find? q = some y ∧ R x y := by
  induction h with
  | nil => cases hx
  | cons hR _ ih =>
    rw [List.find?_cons] at hx ⊢
    rw [← hpq _ _ hR]
    split at hx
    · cases hx
      exact ⟨_, rfl, hR⟩
    · exact ih hx

section Shares

variable {name : String} {ds : List Metadata} {i : Item}
  (h : List.Forall₂ (Receives registry here first name) (definitions (undirected ms)) ds)
include h

theorem map_name_of_receives :
    (ds.map fun d => (d.name, d)).map Prod.fst = definedNames (undirected ms) := by
  rw [List.map_map]
  exact map_eq_of_forall₂ (h.imp fun _ _ hm => hm.name_eq.1)

/-- Of several declarations of a name, the last one is kept. -/
theorem find?_of_receives {key : String}
    (hkey : named (definedNames (undirected ms)) key = true) :
    ∃ e m, lastDefinition? (undirected ms) key = some e ∧ Receives registry here first name e m ∧
      (ds.foldl Item.attach i).metadata.find? key = some m := by
  obtain ⟨n, hn, hs⟩ := named_eq_true_iff.mp hkey
  obtain ⟨d, hd, rfl⟩ := List.mem_map.mp hn
  have hsome : (lastDefinition? (undirected ms) key).isSome = true := by
    rw [lastDefinition?, List.find?_isSome]
    exact ⟨d, List.mem_reverse.mpr hd, decide_eq_true hs⟩
  obtain ⟨e, he⟩ := Option.isSome_iff_exists.mp hsome
  obtain ⟨m, hm, hreceives⟩ := exists_find?_of_forall₂ (q := fun m => SameName m.name key)
    (List.forall₂_reverse_iff.mpr h) (fun x y hxy => by rw [hxy.name_eq.1]) he
  refine ⟨e, m, he, hreceives, ?_⟩
  rw [foldl_attach, NameMap.find?_eq_map_stored?, NameMap.stored?_insertAll, ← List.map_reverse,
    List.find?_map]
  change ((Option.map _ (ds.reverse.find? fun m => SameName m.name key)).or _).map _ = _
  rw [hm]
  rfl

theorem filter_of_receives :
    (ds.foldl Item.attach i).metadata.toList.filter
        (fun e => !named (definedNames (undirected ms)) e.1) =
      i.metadata.toList.filter fun e => !named (definedNames (undirected ms)) e.1 := by
  rw [foldl_attach, ← map_name_of_receives h]
  exact NameMap.filter_insertAll

end Shares

/-! ## The effect of a group -/

/-- Only metadata of an entry is changed. -/
theorem receive_eq (e : String × Item) : receive first others decls e =
    (e.1, { e.2 with metadata := (receive first others decls e).2.metadata }) := by
  unfold receive
  split_ifs
  · rw [foldl_attach]
  · rfl

theorem receive_fst (e : String × Item) : (receive first others decls e).1 = e.1 := by
  rw [receive_eq]

theorem name_receive (e : String × Item) : (receive first others decls e).2.name = e.2.name := by
  rw [receive_eq]

theorem ownFields_receive (e : String × Item) :
    { (receive first others decls e).2 with metadata := .empty } =
      { e.2 with metadata := .empty } := by
  rw [receive_eq]

/-- An entry is there before the group, or there is only its name. -/
theorem snd_of_mem_ensureItems {names : List String} {e : String × Item}
    (h : e ∈ (ensureItems names items).toList) :
    e.2 = (items.find? e.1).getD { name := e.1 } := by
  rw [toList_ensureItems] at h
  rcases List.mem_append.mp h with hold | hnew
  · rw [NameMap.find?_eq_some_iff.mpr ⟨e.1, hold, .refl e.1⟩, Option.getD_some]
  · obtain ⟨n, hn, rfl⟩ := List.mem_map.mp hnew
    have habsent : ¬ items.contains n = true := by
      simpa using (List.mem_filter.mp (mem_of_mem_firsts hn)).2
    have hnone : items.find? n = none := by
      rw [NameMap.find?_eq_map_stored?, NameMap.stored?_eq_none_of_not_contains habsent,
        Option.map_none]
    rw [nameOnly, hnone, Option.getD_none]

/-- What a group does to the items. Its declarations are the members that are neither comments nor
directives. -/
structure GroupEffect (registry : Registry) (here : Location) (ms : Members) (first : String)
    (others : List String) (items items' : NameMap Item) : Prop where
  /-- Apart from metadata, items stay as they are. A listed name that no item has makes an item
  behind them, where and as it is listed first. -/
  order : items'.toList.map (fun e => (e.1, { e.2 with metadata := .empty })) =
    items.toList.map (fun e => (e.1, { e.2 with metadata := .empty })) ++
      (createdNames (first :: others) items).map fun n => (n, { name := n })
  /-- A listed item has each declared name as its last declaration says, resolved for the item, and
  deprecated only if the item is listed first. -/
  declared : ∀ listed ∈ first :: others, ∃ name i, (name, i) ∈ items'.toList ∧
    SameName name listed ∧ ∀ key, named (definedNames (undirected ms)) key = true →
      ∃ e m, lastDefinition? (undirected ms) key = some e ∧
        Receives registry here first name e m ∧ m.item = name ∧ i.metadata.find? key = some m
  /-- Metadata of other names stays as it is. -/
  kept : ∀ e ∈ items'.toList,
    e.2.metadata.toList.filter (fun d => !named (definedNames (undirected ms)) d.1) =
      ((items.find? e.1).getD { name := e.1 }).metadata.toList.filter
        fun d => !named (definedNames (undirected ms)) d.1
  /-- Items that are not listed stay as they are. -/
  unlisted : ∀ e ∈ items.toList, named (first :: others) e.1 = false → e ∈ items'.toList

theorem groupEffect_of_applyGroup (hstored : items.All fun key i => key = i.name)
    (h : (applyGroup registry here items (.object ms)).Gives P items')
    (hlist : mentions (.object ms) = first :: others) :
    GroupEffect registry here ms first others items items' := by
  obtain ⟨decls, hdecls, htoList⟩ := toList_of_applyGroup hstored h hlist
  have hall := all_ensureItems hstored (first :: others)
  have hshare : ∀ e ∈ (ensureItems (first :: others) items).toList,
      List.Forall₂ (Receives registry here first e.1) (definitions (undirected ms))
        (share first decls e.1) := fun e he =>
    forall₂_share hdecls (spelledAs_ownerName hall first e he) (sameName_ownerName hall first)
  constructor
  case order =>
    rw [htoList, List.map_map, toList_ensureItems, List.map_append, List.map_map]
    simp only [Function.comp_def, receive_fst, ownFields_receive]
    rfl
  case declared =>
    intro listed hlisted
    obtain ⟨e, hmem, hs⟩ := exists_mem_ensureItems hlisted items
    have hnamed : named (first :: others) e.1 = true :=
      named_eq_true_iff.mpr ⟨listed, hlisted, hs.symm⟩
    refine ⟨e.1, (share first decls e.1).foldl Item.attach e.2, ?_, hs, fun key hkey => ?_⟩
    · rw [htoList]
      exact List.mem_map.mpr ⟨e, hmem, if_pos hnamed⟩
    · obtain ⟨d, m, hd, hm, hfind⟩ := find?_of_receives (i := e.2) (hshare e hmem) hkey
      exact ⟨d, m, hd, hm, hm.name_eq.2, hfind⟩
  case kept =>
    rw [htoList, List.forall_mem_map]
    intro e he
    rw [receive_fst, ← snd_of_mem_ensureItems he, receive]
    split_ifs
    · exact filter_of_receives (hshare e he)
    · rfl
  case unlisted =>
    intro e he hnot
    rw [htoList, toList_ensureItems]
    refine List.mem_map.mpr ⟨e, List.mem_append_left _ he, if_neg ?_⟩
    rw [hnot]
    exact Bool.false_ne_true

/-! ## The same group once more -/

theorem ensure_of_contains {name : String} {i : Item} (h : items.contains name = true) :
    items.ensure name i = items :=
  NameMap.ext (if_pos (NameMap.contains_iff_mem_keys.mp h))

theorem ensureItems_of_forall_contains {names : List String}
    (h : ∀ n ∈ names, items.contains n = true) : ensureItems names items = items := by
  unfold ensureItems
  induction names with
  | nil => rfl
  | cons n names ih =>
    obtain ⟨hn, hnames⟩ := List.forall_mem_cons.mp h
    rw [List.foldl_cons, ensure_of_contains hn, ih hnames]

theorem receive_receive (e : String × Item) :
    receive first others decls (receive first others decls e) = receive first others decls e := by
  by_cases h : named (first :: others) e.1 = true
  · have hreceive : receive first others decls e =
        (e.1, (share first decls e.1).foldl Item.attach e.2) := if_pos h
    rw [hreceive]
    exact (if_pos h).trans (congrArg (Prod.mk e.1) (foldl_attach_foldl_attach rfl e.2))
  · have hreceive : receive first others decls e = e := if_neg h
    rw [hreceive, hreceive]

section Received

variable {before after : NameMap Item}
  (hafter : after.toList = before.toList.map (receive first others decls))
include hafter

theorem all_of_received (h : before.All fun key i => key = i.name) :
    after.All fun key i => key = i.name := by
  intro e he
  rw [hafter] at he
  obtain ⟨d, hd, rfl⟩ := List.mem_map.mp he
  have hname : d.1 = d.2.name := h d hd
  exact (receive_fst d).trans (hname.trans (name_receive d).symm)

theorem contains_of_received (name : String) : after.contains name = before.contains name := by
  have hkeys : after.keys = before.keys := by
    rw [NameMap.keys, NameMap.keys, hafter, List.map_map]
    exact List.map_congr_left fun e _ => congrArg fold (receive_fst e)
  rw [Bool.eq_iff_iff, NameMap.contains_iff_mem_keys, NameMap.contains_iff_mem_keys, hkeys]

theorem ownerName_of_received (h : before.All fun key i => key = i.name) {name : String}
    (hname : before.contains name = true) : ownerName after name = ownerName before name := by
  obtain ⟨e, hstored⟩ := NameMap.exists_stored?_of_contains hname
  obtain ⟨he, hs⟩ := NameMap.mem_of_stored? hstored
  have he' : receive first others decls e ∈ after.toList := hafter ▸ List.mem_map_of_mem he
  rw [ownerName_eq h he hs, ownerName_eq (all_of_received hafter h) he' (by rwa [receive_fst]),
    receive_fst]

end Received

/-- Applied once more, a group changes nothing. -/
theorem applyGroup_again (hstored : items.All fun key i => key = i.name)
    (h : (applyGroup registry here items (.object ms)).Gives P items')
    (hlist : mentions (.object ms) = first :: others) :
    (applyGroup registry here items' (.object ms)).Gives (fun _ => True) items' := by
  obtain ⟨decls, hdecls, htoList⟩ := toList_of_applyGroup hstored h hlist
  have hall := all_ensureItems hstored (first :: others)
  have hlisted : ∀ n ∈ first :: others,
      (ensureItems (first :: others) items).contains n = true := fun n hn =>
    contains_ensureItems_of_mem hn items
  have hsame : ensureItems (first :: others) items' = items' :=
    ensureItems_of_forall_contains fun n hn =>
      (contains_of_received htoList n).trans (hlisted n hn)
  have howner : ownerName items' first = ownerName (ensureItems (first :: others) items) first :=
    ownerName_of_received htoList hall (hlisted first List.mem_cons_self)
  -- whether a group is accepted does not depend on the items
  have haccepted : (applyGroup registry here items' (.object ms)).Accepted :=
    accepted_applyGroup.mpr (accepted_applyGroup.mp h.accepted)
  obtain ⟨items'', h'⟩ := haccepted
  obtain ⟨decls', hdecls', htoList'⟩ := toList_of_applyGroup (all_of_received htoList hall) h' hlist
  rw [hsame, howner] at hdecls'
  obtain rfl : decls' = decls := hdecls'.unique hdecls
  have hagain : items''.toList = items'.toList := by
    rw [htoList', hsame, htoList, List.map_map]
    refine List.map_congr_left fun e _ => ?_
    rw [Function.comp_apply, receive_receive]
  rwa [NameMap.ext hagain] at h'

/-! ## The same items listed otherwise -/

/-- The members with another list of items. -/
def relisted (names : List String) (ms : Members) : Members :=
  ms.put appliesTo (.array (names.map .text))

theorem resolveDeclarations_put (owner : String) (v : Json) (ms : Members) :
    resolveDeclarations registry owner here (Members.put appliesTo v ms) =
      resolveDeclarations registry owner here ms := by
  induction ms with
  | nil => simp [Members.put, resolveDeclarations]
  | cons e ms ih =>
    rw [Members.put]
    split_ifs with hkey
    · simp [resolveDeclarations, hkey]
    · rw [resolveDeclarations, resolveDeclarations, ih]

theorem find?_relisted (names : List String) (ms : Members) :
    Members.find? (relisted names ms) appliesTo = some (.array (names.map .text)) :=
  Members.find?_put_self ..

theorem mentions_relisted (names : List String) (ms : Members) :
    mentions (.object (relisted names ms)) = names := by
  have hnames : Json.requireStrings [] (.array (names.map .text)) = .ok names :=
    Json.requireTexts_eq_ok.mpr rfl
  rw [mentions, find?_relisted]
  exact listed_of_requireStrings hnames

theorem accepted_applyGroup_relisted {names : List String} {owner : String}
    (hdecls : (resolveDeclarations registry owner here ms).Accepted) :
    (applyGroup registry here items (.object (relisted names ms))).Accepted := by
  rw [accepted_applyGroup]
  intro listed hlisted
  obtain rfl : .array (names.map .text) = listed :=
    Option.some.inj ((find?_relisted names ms).symm.trans hlisted)
  rw [← resolveDeclarations_put owner (.array (names.map .text))] at hdecls
  refine ⟨.inr ?_, fun _ => accepted_resolveDeclarations.mp hdecls⟩
  rw [Json.Texts, List.forall_mem_map]
  exact fun _ _ => rfl

/-- The list of items may be written in any way that keeps its first item, its items, and the names
of those that it creates. -/
theorem applyGroup_relisted {first' : String} {others' : List String}
    (hstored : items.All fun key i => key = i.name)
    (h : (applyGroup registry here items (.object ms)).Gives P items')
    (hlist : mentions (.object ms) = first :: others) (hfirst : SameName first' first)
    (hnamed : ∀ n, named (first' :: others') n = named (first :: others) n)
    (hcreated : createdNames (first' :: others') items = createdNames (first :: others) items) :
    (applyGroup registry here items (.object (relisted (first' :: others') ms))).Gives
      (fun _ => True) items' := by
  obtain ⟨decls, hdecls, htoList⟩ := toList_of_applyGroup hstored h hlist
  have hensured : ensureItems (first' :: others') items = ensureItems (first :: others) items := by
    refine NameMap.ext ?_
    rw [toList_ensureItems, toList_ensureItems, hcreated]
  have howner : ownerName (ensureItems (first :: others) items) first' =
      ownerName (ensureItems (first :: others) items) first := by
    have hall := all_ensureItems hstored (first :: others)
    obtain ⟨e, he, hs⟩ := exists_mem_ensureItems (List.mem_cons_self (a := first)) items
    rw [ownerName_eq hall he hs, ownerName_eq hall he (hs.trans hfirst.symm)]
  obtain ⟨items'', h'⟩ : (applyGroup registry here items
      (.object (relisted (first' :: others') ms))).Accepted :=
    accepted_applyGroup_relisted hdecls.accepted
  obtain ⟨decls', hdecls', htoList'⟩ := toList_of_applyGroup hstored h' (mentions_relisted _ ms)
  rw [relisted, resolveDeclarations_put, hensured, howner] at hdecls'
  obtain rfl : decls' = decls := hdecls'.unique hdecls
  have hsame : items''.toList = items'.toList := by
    rw [htoList', hensured, receive_congr hfirst hnamed, htoList]
  rwa [NameMap.ext hsame] at h'

/-- Names that repeat one before them create nothing. -/
theorem createdNames_firsts (names : List String) (items : NameMap Item) :
    createdNames (firsts names) items = createdNames names items := by
  have hensured : ensureItems (firsts names) items = ensureItems names items := by
    induction names using List.reverseRecOn with
    | nil => rfl
    | append_singleton names name ih =>
      have hconcat : ∀ ns, ensureItems (ns ++ [name]) items =
          (ensureItems ns items).ensure name { name } := fun ns => List.foldl_concat ..
      rw [firsts_concat, hconcat]
      split_ifs with hname
      · have hcontains : (ensureItems names items).contains name = true := by
          rw [contains_ensureItems, hname, Bool.or_true]
        rw [List.append_nil, ih, ensure_of_contains hcontains]
      · rw [hconcat, ih]
  have hnames := congrArg NameMap.names hensured
  rw [names_ensureItems_eq, names_ensureItems_eq] at hnames
  exact List.append_cancel_left hnames

/-- The first name of a list repeats none. -/
theorem firsts_cons (first : String) (others : List String) :
    ∃ rest, firsts (first :: others) = first :: rest := by
  have hsplit := firsts_append [first] others
  have hone : firsts [first] = [first] := firsts_of_nodup (by simp)
  rw [hone] at hsplit
  exact ⟨_, hsplit⟩

theorem applyGroup_firsts (hstored : items.All fun key i => key = i.name)
    (h : (applyGroup registry here items (.object ms)).Gives P items')
    (hlist : mentions (.object ms) = first :: others) :
    (applyGroup registry here items (.object (relisted (firsts (first :: others)) ms))).Gives
      (fun _ => True) items' := by
  obtain ⟨rest, hrest⟩ := firsts_cons first others
  rw [hrest]
  refine applyGroup_relisted hstored h hlist (.refl first) (fun n => ?_) ?_
  · rw [← hrest, named_firsts]
  · rw [← hrest, createdNames_firsts]

/-- **Groups attach their declarations to the listed items, and do nothing else.** The items that a
group leaves behind are those before it and those that it creates, with the declared metadata of
listed items replaced. They are the same if the items are listed otherwise, in particular if no name
is repeated, and if the group is applied once more. -/
theorem group_attaches_to_listed {fs : List Finding}
    (hstored : items.All fun key i => key = i.name)
    (h : applyGroup registry here items (.object ms) = .ok items' fs)
    (hlist : mentions (.object ms) = first :: others) :
    GroupEffect registry here ms first others items items' ∧
    (∀ first' others', SameName first' first →
      (∀ n, named (first' :: others') n = named (first :: others) n) →
      createdNames (first' :: others') items = createdNames (first :: others) items →
      ∃ gs, applyGroup registry here items (.object (relisted (first' :: others') ms)) =
        .ok items' gs) ∧
    (∃ gs, applyGroup registry here items (.object (relisted (firsts (first :: others)) ms)) =
      .ok items' gs) ∧
    ∃ gs, applyGroup registry here items' (.object ms) = .ok items' gs := by
  have hgives : (applyGroup registry here items (.object ms)).Gives (fun _ => True) items' :=
    ⟨fs, h, fun _ _ => trivial⟩
  refine ⟨groupEffect_of_applyGroup hstored hgives hlist,
    fun first' others' hfirst hnamed hcreated => ?_,
    (applyGroup_firsts hstored hgives hlist).exists_eq_ok,
    (applyGroup_again hstored hgives hlist).exists_eq_ok⟩
  exact (applyGroup_relisted hstored hgives hlist hfirst hnamed hcreated).exists_eq_ok

/-- A group whose first owner is listed again in other casing, and whose one name is declared
twice. -/
def linkGroup : Members := [
  ("link", .text "Old path"),
  ("$appliesTo", .array [.text "compile", .text "None", .text "COMPILE"]),
  ("# note", .null),
  ("LINK", .object [("type", .text "bool"), ("deprecationMessage", .text "Use Path")])]

/-- Items before the group, one of which has metadata of this name. -/
def linkItems : NameMap Item := .ofList [
  ("Compile", { name := "Compile", description := some "Sources",
                metadata := .ofList [("Link", { name := "Link", item := "Compile" }),
                  ("Visible", { name := "Visible", item := "Compile" })] }),
  ("Content", { name := "Content" })]

theorem group_attaches_to_listed_link :
    (linkItems.All fun key i => key = i.name) ∧
    mentions (.object linkGroup) = ["compile", "None", "COMPILE"] ∧
    ∃ items' fs, applyGroup .empty [.key "metadata", .index 0] linkItems (.object linkGroup) =
        .ok items' fs ∧
      GroupEffect .empty [.key "metadata", .index 0] linkGroup "compile" ["None", "COMPILE"]
        linkItems items' ∧
      (∃ gs, applyGroup .empty [.key "metadata", .index 0] linkItems
        (.object (relisted ["compile", "None"] linkGroup)) = .ok items' gs) ∧
      ∃ gs, applyGroup .empty [.key "metadata", .index 0] items' (.object linkGroup) =
        .ok items' gs := by
  have hstored : ∀ e ∈ linkItems.toList, e.1 = e.2.name := by decide +kernel
  have hlist : mentions (.object linkGroup) = ["compile", "None", "COMPILE"] := rfl
  obtain ⟨items', fs, h⟩ : ∃ items' fs, applyGroup .empty [.key "metadata", .index 0] linkItems
      (.object linkGroup) = .ok items' fs := ⟨_, _, rfl⟩
  obtain ⟨heffect, -, hfirsts, hagain⟩ := group_attaches_to_listed hstored h hlist
  have hnames : firsts ["compile", "None", "COMPILE"] = ["compile", "None"] := by decide +kernel
  rw [hnames] at hfirsts
  exact ⟨hstored, hlist, items', fs, h, heffect, hfirsts, hagain⟩

end BuildVocabulary

import BuildVocabulary.NameMap
import Mathlib.Data.List.Nodup

/-!
# Entries of a name map

What each operation on a name map does to its entries, and what it gives for the other names.

* `stored?`, `stored?_eq_some_iff`: the one entry of a name, with its spelling;
* `find?_eq_some_iff`: the value under a name is that of this entry;
* `stored?_modify`, `modify_congr`: a change of the value under a name;
* `find?_ensure_of_contains`: what stays when a name is added;
* `All`: a property of every entry, with the conditions under which an operation keeps it.
-/

namespace BuildVocabulary.NameMap

variable {α : Type} {m : NameMap α} {name : String} {v : α}

/-! ## Where entries come from -/

theorem mem_insertEntry {e : String × α} {es : List (String × α)}
    (h : e ∈ insertEntry name v es) : e = (name, v) ∨ e ∈ es := by
  induction es with
  | nil => exact .inl (List.mem_singleton.mp h)
  | cons d es ih =>
    rw [insertEntry] at h
    split_ifs at h with hd
    · rcases List.mem_cons.mp h with rfl | h
      · exact .inl rfl
      · exact .inr (List.mem_cons_of_mem _ h)
    · rcases List.mem_cons.mp h with rfl | h
      · exact .inr List.mem_cons_self
      · exact (ih h).imp_right (List.mem_cons_of_mem _)

theorem mem_insert {e : String × α} (h : e ∈ (m.insert name v).toList) :
    e = (name, v) ∨ e ∈ m.toList := mem_insertEntry h

theorem mem_modify {f : α → α} {e : String × α} (h : e ∈ (m.modify name f).toList) :
    e ∈ m.toList ∨ ∃ a, (e.1, a) ∈ m.toList ∧ SameName e.1 name ∧ e.2 = f a := by
  obtain ⟨d, hd, rfl⟩ := List.mem_map.mp h
  unfold modifyEntry
  split_ifs with hs
  · exact .inr ⟨d.2, hd, hs, rfl⟩
  · exact .inl hd

theorem mem_ensure {e : String × α} (h : e ∈ (m.ensure name v).toList) :
    e = (name, v) ∨ e ∈ m.toList := by
  unfold ensure at h
  split_ifs at h
  · exact .inr h
  · rcases List.mem_append.mp h with h | h
    · exact .inr h
    · exact .inl (List.mem_singleton.mp h)

/-! ## The entry of a name -/

/-- The entry of a name, in any spelling. -/
def stored? (m : NameMap α) (name : String) : Option (String × α) :=
  m.toList.find? fun e => entryKey e = fold name

theorem find?_eq_map_stored? : m.find? name = (m.stored? name).map Prod.snd := rfl

theorem contains_eq_isSome_stored? : m.contains name = (m.stored? name).isSome := by
  rw [stored?, contains, Bool.eq_iff_iff, List.any_eq_true, List.find?_isSome]

theorem exists_stored?_of_contains (h : m.contains name = true) : ∃ d, m.stored? name = some d := by
  rwa [contains_eq_isSome_stored?, Option.isSome_iff_exists] at h

theorem stored?_eq_none_of_not_contains (h : ¬ m.contains name = true) : m.stored? name = none := by
  rwa [contains_eq_isSome_stored?, Option.not_isSome_iff_eq_none] at h

theorem isSome_find? : (m.find? name).isSome = m.contains name := by
  rw [find?_eq_map_stored?, Option.isSome_map, contains_eq_isSome_stored?]

theorem isSome_find?_iff_mem_keys : (m.find? name).isSome = true ↔ fold name ∈ m.keys := by
  rw [isSome_find?, contains_iff_mem_keys]

theorem stored?_congr {n : String} (h : SameName n name) : m.stored? n = m.stored? name := by
  unfold stored?
  rw [show fold n = fold name from h]

theorem find?_congr {n : String} (h : SameName n name) : m.find? n = m.find? name := by
  rw [find?_eq_map_stored?, find?_eq_map_stored?, stored?_congr h]

/-- A map has at most one entry of a name. -/
theorem eq_of_sameName {d e : String × α} (hd : d ∈ m.toList) (he : e ∈ m.toList)
    (h : SameName d.1 e.1) : d = e := List.inj_on_of_nodup_map m.distinct hd he h

theorem mem_of_stored? {e : String × α} (h : m.stored? name = some e) :
    e ∈ m.toList ∧ SameName e.1 name :=
  ⟨List.mem_of_find?_eq_some h, of_decide_eq_true (List.find?_some h :)⟩

theorem stored?_eq_some_iff {e : String × α} :
    m.stored? name = some e ↔ e ∈ m.toList ∧ SameName e.1 name := by
  refine ⟨mem_of_stored?, ?_⟩
  rintro ⟨he, hs⟩
  have hsome : (m.stored? name).isSome = true := by
    rw [stored?, List.find?_isSome]
    exact ⟨e, he, decide_eq_true hs⟩
  obtain ⟨d, hd⟩ := Option.isSome_iff_exists.mp hsome
  obtain ⟨hdm, hds⟩ := mem_of_stored? hd
  have hde : d = e := eq_of_sameName hdm he (hds.trans hs.symm)
  exact hde ▸ hd

theorem find?_eq_some_iff {a : α} :
    m.find? name = some a ↔ ∃ n, (n, a) ∈ m.toList ∧ SameName n name := by
  rw [find?_eq_map_stored?, Option.map_eq_some_iff]
  constructor
  · rintro ⟨e, he, rfl⟩
    exact ⟨e.1, stored?_eq_some_iff.mp he⟩
  · rintro ⟨n, hn⟩
    exact ⟨(n, a), stored?_eq_some_iff.mpr hn, rfl⟩

theorem entryKey_modifyEntry (f : α → α) (e : String × α) :
    entryKey (modifyEntry name f e) = entryKey e := by
  unfold modifyEntry
  split_ifs <;> rfl

/-- A changed value keeps its spelling; every other entry is as before. -/
theorem stored?_modify (f : α → α) (n : String) :
    (m.modify name f).stored? n =
      if SameName name n then (m.stored? n).map fun e => (e.1, f e.2) else m.stored? n := by
  have hfound : (m.modify name f).stored? n = (m.stored? n).map (modifyEntry name f) := by
    simp only [stored?, modify, List.find?_map, Function.comp_def, entryKey_modifyEntry]
  rw [hfound]
  cases he : m.stored? n with
  | none => rw [Option.map_none, Option.map_none, ite_self]
  | some e =>
    have hs : SameName e.1 n := (mem_of_stored? he).2
    rw [Option.map_some, Option.map_some, modifyEntry]
    by_cases hn : SameName name n
    · have heq : entryKey e = fold name := hs.trans hn.symm
      rw [if_pos heq, if_pos hn]
    · have hne : ¬ entryKey e = fold name := fun h => hn (Eq.trans h.symm hs)
      rw [if_neg hne, if_neg hn]

theorem modify_congr {f g : α → α} (h : ∀ a, m.find? name = some a → f a = g a) :
    m.modify name f = m.modify name g := by
  refine ext (List.map_congr_left fun e he => ?_)
  unfold modifyEntry
  split_ifs with hs
  · rw [h e.2 (find?_eq_some_iff.mpr ⟨e.1, he, hs⟩)]
  · rfl

theorem modify_id : m.modify name id = m := by
  refine ext (List.map_id'' (fun e => ?_) m.toList)
  unfold modifyEntry
  split_ifs <;> rfl

theorem modify_modify (f g : α → α) : (m.modify name f).modify name g = m.modify name (g ∘ f) := by
  refine ext ?_
  simp only [modify, List.map_map]
  refine List.map_congr_left fun e _ => ?_
  rw [Function.comp_apply, modifyEntry, entryKey_modifyEntry, modifyEntry, modifyEntry]
  split_ifs <;> rfl

theorem find?_modify_self (f : α → α) : (m.modify name f).find? name = (m.find? name).map f := by
  rw [find?_eq_map_stored?, find?_eq_map_stored?, stored?_modify, if_pos (.refl name),
    Option.map_map, Option.map_map]
  rfl

/-- A name that is there already is looked up as before. -/
theorem find?_ensure_of_contains {n : String} (h : m.contains n = true) :
    (m.ensure name v).find? n = m.find? n := by
  obtain ⟨e, he⟩ := exists_stored?_of_contains h
  have hlist : (m.ensure name v).toList =
      if fold name ∈ m.keys then m.toList else m.toList ++ [(name, v)] := rfl
  rw [find?_eq_map_stored?, find?_eq_map_stored?, stored?, hlist]
  split_ifs
  · rfl
  · rw [List.find?_append, ← stored?, he, Option.some_or]

theorem contains_ensure_self : (m.ensure name v).contains name = true := by
  rw [contains_iff_mem_keys, keys_ensure]
  split_ifs with h
  · exact h
  · exact List.mem_append_right _ (List.mem_singleton_self _)

/-! ## Spellings -/

theorem names_modify (f : α → α) : (m.modify name f).names = m.names := by
  unfold names modify
  rw [List.map_map]
  refine List.map_congr_left fun e _ => ?_
  simp only [Function.comp_apply, modifyEntry]
  split_ifs <;> rfl

theorem names_ensure :
    (m.ensure name v).names = if m.contains name then m.names else m.names ++ [name] := by
  have hlist : (m.ensure name v).toList =
      if fold name ∈ m.keys then m.toList else m.toList ++ [(name, v)] := rfl
  rw [names, hlist]
  by_cases h : fold name ∈ m.keys
  · rw [if_pos h, if_pos (contains_iff_mem_keys.mpr h), names]
  · rw [if_neg h, if_neg fun hc => h (contains_iff_mem_keys.mp hc), List.map_append,
      List.map_singleton, names]

theorem map_fold_names : m.names.map fold = m.keys := by
  rw [names, List.map_map]
  rfl

theorem nodup_names (m : NameMap α) : m.names.Nodup := by
  have hkeys : (m.names.map fold).Nodup := map_fold_names ▸ m.keys_nodup
  exact hkeys.of_map

theorem map_fst_toMembers {β : Type} (f : α → β) : (m.toMembers f).map Prod.fst = m.names := by
  rw [toMembers, List.map_map]
  rfl

/-! ## Properties of every entry -/

/-- Every entry has a property of its name and its value. -/
def All (Q : String → α → Prop) (m : NameMap α) : Prop := ∀ e ∈ m.toList, Q e.1 e.2

instance {Q : String → α → Prop} [∀ n a, Decidable (Q n a)] : Decidable (m.All Q) :=
  inferInstanceAs (Decidable (∀ e ∈ m.toList, Q e.1 e.2))

namespace All

variable {Q R : String → α → Prop}

theorem empty : (NameMap.empty : NameMap α).All Q := by
  intro e he
  exact absurd he List.not_mem_nil

theorem mono (h : m.All Q) (hQR : ∀ n a, Q n a → R n a) : m.All R := fun e he =>
  hQR e.1 e.2 (h e he)

theorem and (h : m.All Q) (h' : m.All R) : m.All fun n a => Q n a ∧ R n a := fun e he =>
  ⟨h e he, h' e he⟩

theorem insert (h : m.All Q) (hv : Q name v) : (m.insert name v).All Q := by
  intro e he
  rcases mem_insert he with rfl | he
  · exact hv
  · exact h e he

theorem ensure (h : m.All Q) (hv : Q name v) : (m.ensure name v).All Q := by
  intro e he
  rcases mem_ensure he with rfl | he
  · exact hv
  · exact h e he

/-- The changed value has to keep the property under the name that it is stored under. -/
theorem modify {f : α → α} (h : m.All Q)
    (hf : ∀ n a, (n, a) ∈ m.toList → SameName n name → Q n (f a)) : (m.modify name f).All Q := by
  intro e he
  rcases mem_modify he with he | ⟨a, ha, hs, hfa⟩
  · exact h e he
  · rw [hfa]
    exact hf e.1 a ha hs

/-- Entries that are inserted one after the other bring their property with them. -/
theorem foldl_insert (h : m.All Q) {es : List (String × α)} (hes : ∀ e ∈ es, Q e.1 e.2) :
    (es.foldl (fun m e => m.insert e.1 e.2) m).All Q :=
  List.foldlRecOn es _ h fun _ hm e he => All.insert hm (hes e he)

theorem values {Q : α → Prop} : (m.All fun _ a => Q a) ↔ ∀ a ∈ m.values, Q a := by
  unfold All NameMap.values
  exact List.forall_mem_map.symm

end All

end BuildVocabulary.NameMap

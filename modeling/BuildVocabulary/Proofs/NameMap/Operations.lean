import BuildVocabulary.Proofs.NameMap.Layers

/-!
# Operations on a name map

An operation is addressed to one name, or to all values, or collects a map anew. What it does is
read off the place of its name: `SplitAt` says where the entry of a name stands, and each operation
either changes the map at this place or, if the name is absent, appends an entry at most.

* `Op`, `step`: operations with their answers;
* `SplitAt.insert`, `SplitAt.modify`, `SplitAt.ensure`, `SplitAt.erase`: a present name;
* `toList_insert_of_not_mem` and its like: an absent name;
* `OrderedLaws`: what every operation does to names, values and order, and what queries find;
* **`orderedLaws`**: it holds of every map.
-/

namespace BuildVocabulary.NameMap

variable {α : Type} {m : NameMap α} {name n : String} {a v : α} {pre post : List (String × α)}

/-! ## Operations with their answers -/

/-- Changes each value by its position; spellings and positions stay. -/
def modifyAll (f : Nat → α → α) (m : NameMap α) : NameMap α where
  toList := m.toList.mapIdx fun i e => (e.1, f i e.2)
  distinct := by
    have hkeys : (m.toList.mapIdx fun i e => (e.1, f i e.2)).map entryKey =
        m.toList.map entryKey :=
      List.ext_getElem (by simp) fun i _ _ => by simp [entryKey]
    rw [hkeys]
    exact m.distinct

theorem map_eq_modifyAll (f : α → α) : m.map f = m.modifyAll fun _ => f :=
  ext (List.ext_getElem (by simp [map, modifyAll]) fun i _ _ => by simp [map, modifyAll])

/-- An operation on a map. -/
inductive Op (α : Type) where
  /-- Puts a value under a name, and answers with the value that it replaces. -/
  | insert (name : String) (v : α)
  /-- Changes the value under a name, and answers with the value that it changes. -/
  | modify (name : String) (f : α → α)
  /-- Appends a value under a name that has none, and answers with the value that is there then. -/
  | ensure (name : String) (v : α)
  /-- Removes the entry of a name, and answers with its value. -/
  | erase (name : String)
  /-- Changes each value by its position. -/
  | modifyAll (f : Nat → α → α)
  /-- Begins anew with entries that are inserted one after the other. -/
  | collect (es : List (String × α))

/-- The name that an operation is addressed to. -/
def Op.name? : Op α → Option String
  | .insert name _ | .modify name _ | .ensure name _ | .erase name => some name
  | .modifyAll _ | .collect _ => none

/-- The answer of an operation, and the map after it. -/
def step (m : NameMap α) : Op α → Option α × NameMap α
  | .insert name v => (m.find? name, m.insert name v)
  | .modify name f => (m.find? name, m.modify name f)
  | .ensure name v => ((m.ensure name v).find? name, m.ensure name v)
  | .erase name => (m.find? name, m.erase name)
  | .modifyAll f => (none, m.modifyAll f)
  | .collect es => (none, ofList es)

/-! ## The place of a name -/

/-- The entry of a name stands between these entries. -/
structure SplitAt (m : NameMap α) (name : String) (pre : List (String × α)) (n : String) (a : α)
    (post : List (String × α)) : Prop where
  toList_eq : m.toList = pre ++ (n, a) :: post
  same : SameName n name

/-- The entries of other names. -/
def others (name : String) (m : NameMap α) : List (String × α) :=
  m.toList.filter fun e => ¬ SameName e.1 name

section Entries

variable {es : List (String × α)}

theorem insertEntry_append_cons (hpre : ∀ d ∈ pre, ¬ SameName d.1 name) (hn : SameName n name) :
    insertEntry name v (pre ++ (n, a) :: post) = pre ++ (name, v) :: post := by
  induction pre with
  | nil => exact if_pos hn
  | cons d pre ih =>
    have hd : ¬ entryKey d = fold name := hpre d List.mem_cons_self
    rw [List.cons_append, insertEntry, if_neg hd,
      ih fun c hc => hpre c (List.mem_cons_of_mem _ hc), List.cons_append]

theorem insertEntry_of_forall_not (h : ∀ d ∈ es, ¬ SameName d.1 name) :
    insertEntry name v es = es ++ [(name, v)] := by
  induction es with
  | nil => rfl
  | cons d es ih =>
    have hd : ¬ entryKey d = fold name := h d List.mem_cons_self
    rw [insertEntry, if_neg hd, ih fun c hc => h c (List.mem_cons_of_mem _ hc), List.cons_append]

theorem map_modifyEntry_of_forall_not {f : α → α} (h : ∀ d ∈ es, ¬ SameName d.1 name) :
    es.map (modifyEntry name f) = es := by
  refine (List.map_congr_left fun d hd => ?_).trans es.map_id
  exact if_neg (h d hd)

theorem filter_of_forall_not (h : ∀ d ∈ es, ¬ SameName d.1 name) :
    es.filter (fun e => ¬ SameName e.1 name) = es :=
  List.filter_eq_self.mpr fun d hd => decide_eq_true (h d hd)

theorem filter_cons_of_sameName (h : SameName n name) :
    ((n, a) :: es).filter (fun e => ¬ SameName e.1 name) =
      es.filter fun e => ¬ SameName e.1 name :=
  List.filter_cons_of_neg (by simpa using h)

end Entries

theorem exists_splitAt (h : fold name ∈ m.keys) : ∃ pre n a post, m.SplitAt name pre n a post := by
  obtain ⟨e, he, hs⟩ := List.mem_map.mp h
  obtain ⟨pre, post, heq⟩ := List.append_of_mem he
  exact ⟨pre, e.1, e.2, post, heq, hs⟩

theorem not_mem_keys_iff : fold name ∉ m.keys ↔ ∀ e ∈ m.toList, ¬ SameName e.1 name := by
  unfold keys
  rw [List.mem_map]
  constructor
  · intro h e he hs
    exact h ⟨e, he, hs⟩
  · rintro h ⟨e, he, hs⟩
    exact h e he hs

theorem toList_erase : (m.erase name).toList = m.others name := rfl

theorem not_sameName_of_mem_erase {e : String × α} (h : e ∈ (m.erase name).toList) :
    ¬ SameName e.1 name := of_decide_eq_true (List.mem_filter.mp h).2

namespace SplitAt

theorem not_sameName (h : m.SplitAt name pre n a post) :
    (∀ e ∈ pre, ¬ SameName e.1 name) ∧ ∀ e ∈ post, ¬ SameName e.1 name := by
  have hnodup := m.distinct
  rw [h.toList_eq, List.map_append, List.map_cons, List.nodup_append, List.nodup_cons] at hnodup
  obtain ⟨-, ⟨hpost, -⟩, hpre⟩ := hnodup
  have hkey : entryKey (n, a) = fold name := h.same
  constructor
  · intro e he hs
    exact hpre _ (List.mem_map_of_mem he) _ List.mem_cons_self (Eq.trans hs hkey.symm)
  · intro e he hs
    have heq : entryKey e = entryKey (n, a) := Eq.trans hs hkey.symm
    exact hpost (heq ▸ List.mem_map_of_mem he)

theorem find? (h : m.SplitAt name pre n a post) : m.find? name = some a := by
  have hmem : (n, a) ∈ m.toList := by simp [h.toList_eq]
  exact find?_eq_some_iff.mpr ⟨n, hmem, h.same⟩

theorem mem_keys (h : m.SplitAt name pre n a post) : fold name ∈ m.keys :=
  List.mem_map.mpr ⟨(n, a), by simp [h.toList_eq], h.same⟩

theorem others (h : m.SplitAt name pre n a post) : m.others name = pre ++ post := by
  obtain ⟨hpre, hpost⟩ := h.not_sameName
  rw [NameMap.others, h.toList_eq, List.filter_append, filter_cons_of_sameName h.same,
    filter_of_forall_not hpre, filter_of_forall_not hpost]

theorem insert (h : m.SplitAt name pre n a post) (v : α) :
    (m.insert name v).SplitAt name pre name v post where
  toList_eq := by
    have hlist : (m.insert name v).toList = insertEntry name v m.toList := rfl
    rw [hlist, h.toList_eq, insertEntry_append_cons h.not_sameName.1 h.same]
  same := .refl name

theorem insert_eq_map (h : m.SplitAt name pre n a post) (v : α) :
    (m.insert name v).toList = m.toList.map fun e => if SameName e.1 name then (name, v) else e := by
  obtain ⟨hpre, hpost⟩ := h.not_sameName
  have hother : ∀ es : List (String × α), (∀ e ∈ es, ¬ SameName e.1 name) →
      es.map (fun e => if SameName e.1 name then (name, v) else e) = es := by
    intro es hes
    exact (List.map_congr_left fun e he => if_neg (hes e he)).trans es.map_id
  rw [(h.insert v).toList_eq, h.toList_eq, List.map_append, List.map_cons, hother pre hpre,
    hother post hpost, if_pos h.same]

theorem modify (h : m.SplitAt name pre n a post) (f : α → α) :
    (m.modify name f).SplitAt name pre n (f a) post where
  toList_eq := by
    have hlist : (m.modify name f).toList = m.toList.map (modifyEntry name f) := rfl
    have hself : modifyEntry name f (n, a) = (n, f a) := if_pos h.same
    rw [hlist, h.toList_eq, List.map_append, List.map_cons, hself,
      map_modifyEntry_of_forall_not h.not_sameName.1,
      map_modifyEntry_of_forall_not h.not_sameName.2]
  same := h.same

theorem ensure (h : m.SplitAt name pre n a post) (v : α) : m.ensure name v = m :=
  ext (if_pos h.mem_keys)

theorem erase (h : m.SplitAt name pre n a post) : (m.erase name).toList = pre ++ post :=
  toList_erase.trans h.others

end SplitAt

theorem toList_insert_of_mem_keys (h : fold name ∈ m.keys) :
    (m.insert name v).toList = m.toList.map fun e => if SameName e.1 name then (name, v) else e := by
  obtain ⟨pre, n, a, post, hs⟩ := exists_splitAt h
  exact hs.insert_eq_map v

/-! ## Absent names -/

section Absent

variable (h : ∀ e ∈ m.toList, ¬ SameName e.1 name)
include h

theorem find?_of_forall_not : m.find? name = none := by
  rw [← Option.not_isSome_iff_eq_none, isSome_find?_iff_mem_keys]
  exact not_mem_keys_iff.mpr h

theorem toList_insert_of_forall_not : (m.insert name v).toList = m.toList ++ [(name, v)] :=
  insertEntry_of_forall_not h

theorem modify_of_forall_not (f : α → α) : m.modify name f = m :=
  ext (map_modifyEntry_of_forall_not h)

theorem toList_ensure_of_forall_not : (m.ensure name v).toList = m.toList ++ [(name, v)] :=
  if_neg (not_mem_keys_iff.mpr h)

theorem others_of_forall_not : m.others name = m.toList := filter_of_forall_not h

theorem erase_of_forall_not : m.erase name = m := ext (others_of_forall_not h)

end Absent

theorem others_append (k : NameMap α) (h : k.toList = m.toList ++ [(name, v)]) :
    k.others name = m.others name := by
  rw [others, h, List.filter_append, filter_cons_of_sameName (.refl name), List.filter_nil,
    List.append_nil, others]

/-! ## The laws of an ordered map -/

/-- What queries find in a map, and what operations do to its names, values and order. -/
structure OrderedLaws (m : NameMap α) : Prop where
  /-- No two names are equal ignoring case. -/
  distinct : m.toList.Pairwise fun d e => ¬ SameName d.1 e.1
  find : ∀ name a, m.find? name = some a ↔ ∃ n, (n, a) ∈ m.toList ∧ SameName n name
  contains : ∀ name, m.contains name = true ↔ ∃ e ∈ m.toList, SameName e.1 name
  /-- A present name keeps its place; its spelling changes by insertion alone. -/
  present : ∀ name pre n a post, m.toList = pre ++ (n, a) :: post → SameName n name →
    (∀ v, (m.step (.insert name v)).1 = some a ∧
      (m.step (.insert name v)).2.toList = pre ++ (name, v) :: post) ∧
    (∀ f, (m.step (.modify name f)).1 = some a ∧
      (m.step (.modify name f)).2.toList = pre ++ (n, f a) :: post) ∧
    (∀ v, m.step (.ensure name v) = (some a, m)) ∧
    (m.step (.erase name)).1 = some a ∧ (m.step (.erase name)).2.toList = pre ++ post
  /-- An absent name is appended, or nothing happens. -/
  absent : ∀ name, (∀ e ∈ m.toList, ¬ SameName e.1 name) →
    (∀ v, (m.step (.insert name v)).1 = none ∧
      (m.step (.insert name v)).2.toList = m.toList ++ [(name, v)]) ∧
    (∀ f, m.step (.modify name f) = (none, m)) ∧
    (∀ v, (m.step (.ensure name v)).1 = some v ∧
      (m.step (.ensure name v)).2.toList = m.toList ++ [(name, v)]) ∧
    m.step (.erase name) = (none, m)
  /-- Entries of other names stay as they are, in their order. -/
  others : ∀ op name, op.name? = some name → (m.step op).2.others name = m.others name
  /-- Changes of all values leave the spellings where they are. -/
  positions : ∀ f, (m.step (.modifyAll f)).2.names = m.names
  uniform : ∀ f, (m.step (.modifyAll fun _ => f)).2 = m.map f
  /-- The entries of the map, collected again, make up the map. -/
  collected : (m.step (.collect m.toList)).2 = m

theorem find?_ensure_of_forall_not (h : ∀ e ∈ m.toList, ¬ SameName e.1 name) :
    (m.ensure name v).find? name = some v := by
  have hmem : (name, v) ∈ (m.ensure name v).toList := by simp [toList_ensure_of_forall_not h]
  exact find?_eq_some_iff.mpr ⟨name, hmem, .refl name⟩

theorem others_step (m : NameMap α) {op : Op α} (h : op.name? = some name) :
    (m.step op).2.others name = m.others name := by
  by_cases hmem : fold name ∈ m.keys
  · obtain ⟨pre, n, a, post, hs⟩ := exists_splitAt hmem
    cases op with
    | insert _ v => cases h; exact (hs.insert v).others.trans hs.others.symm
    | modify _ f => cases h; exact (hs.modify f).others.trans hs.others.symm
    | ensure _ v => cases h; exact congrArg (NameMap.others name) (hs.ensure v)
    | erase _ => cases h; exact others_of_forall_not fun _ => not_sameName_of_mem_erase
    | modifyAll | collect => cases h
  · have habs := not_mem_keys_iff.mp hmem
    cases op with
    | insert _ v => cases h; exact others_append _ (toList_insert_of_forall_not habs)
    | modify _ f => cases h; exact congrArg (NameMap.others name) (modify_of_forall_not habs f)
    | ensure _ v => cases h; exact others_append _ (toList_ensure_of_forall_not habs)
    | erase _ => cases h; exact congrArg (NameMap.others name) (erase_of_forall_not habs)
    | modifyAll | collect => cases h

theorem names_modifyAll (f : Nat → α → α) : (m.modifyAll f).names = m.names :=
  List.ext_getElem (by simp [names, modifyAll]) fun i _ _ => by simp [names, modifyAll]

theorem ofList_toList (m : NameMap α) : ofList m.toList = m := lays_insert.foldl_empty m

/-- **Every map obeys the laws of an ordered map.** -/
theorem orderedLaws (m : NameMap α) : m.OrderedLaws where
  distinct := List.pairwise_map.mp m.distinct
  find _ _ := find?_eq_some_iff
  contains name := by
    rw [contains_iff_mem_keys, keys, List.mem_map]
    rfl
  present name pre n a post heq hs := by
    have h : m.SplitAt name pre n a post := ⟨heq, hs⟩
    refine ⟨fun v => ⟨h.find?, (h.insert v).toList_eq⟩, fun f => ⟨h.find?, (h.modify f).toList_eq⟩,
      fun v => ?_, h.find?, h.erase⟩
    rw [step, h.ensure v, h.find?]
  absent name h := by
    have hnone := find?_of_forall_not h
    refine ⟨fun v => ⟨hnone, toList_insert_of_forall_not h⟩, fun f => ?_,
      fun v => ⟨find?_ensure_of_forall_not h, toList_ensure_of_forall_not h⟩, ?_⟩
    · rw [step, hnone, modify_of_forall_not h]
    · rw [step, hnone, erase_of_forall_not h]
  others op name := others_step m
  positions := names_modifyAll
  uniform f := (map_eq_modifyAll f).symm
  collected := ofList_toList m

end BuildVocabulary.NameMap

import BuildVocabulary.Text.Case

/-!
# Name maps

A `NameMap` holds values under names, in order of first insertion. Names are compared ignoring
ASCII case, and no two names of a map are equal in that sense; each entry keeps one spelling.

* `insert` takes the newest spelling and keeps the position; `modify` and `ensure` keep both;
  `erase` keeps the order of what stays;
* `keys_insert`, `keys_modify`, `keys_ensure`, `keys_erase`: the folded names after each operation;
* `Agrees`: equality that ignores the order of entries, but not their spelling.
-/

namespace BuildVocabulary

def entryKey {α : Type} (e : String × α) : String := fold e.1

/-- Values under names that are compared ignoring ASCII case, in order of first insertion. -/
structure NameMap (α : Type) where
  toList : List (String × α)
  distinct : (toList.map entryKey).Nodup
  deriving DecidableEq

namespace NameMap

variable {α β : Type}

/-! ## Entry lists -/

/-- Puts a value under a name: in place of an entry of that name, or at the end. -/
def insertEntry (name : String) (v : α) : List (String × α) → List (String × α)
  | [] => [(name, v)]
  | e :: es => if entryKey e = fold name then (name, v) :: es else e :: insertEntry name v es

/-- Changes the value under a name and leaves its spelling. -/
def modifyEntry (name : String) (f : α → α) (e : String × α) : String × α :=
  if entryKey e = fold name then (e.1, f e.2) else e

theorem map_entryKey_insertEntry (name : String) (v : α) (es : List (String × α)) :
    (insertEntry name v es).map entryKey =
      if fold name ∈ es.map entryKey then es.map entryKey else es.map entryKey ++ [fold name] := by
  induction es with
  | nil => simp [insertEntry, entryKey]
  | cons e es ih =>
    by_cases h : entryKey e = fold name
    · simp only [insertEntry, h, if_true, List.map_cons, List.mem_cons, true_or]
      rfl
    · have h' : fold name ≠ entryKey e := Ne.symm h
      simp only [insertEntry, h, if_false, List.map_cons, ih, List.mem_cons, h', false_or]
      split <;> rfl

theorem map_entryKey_modifyEntry (name : String) (f : α → α) (es : List (String × α)) :
    (es.map (modifyEntry name f)).map entryKey = es.map entryKey := by
  rw [List.map_map]
  refine List.map_congr_left fun e _ => ?_
  simp only [Function.comp_apply, modifyEntry]
  split <;> rfl

theorem nodup_append_singleton {x : String} {xs : List String} (hxs : xs.Nodup) (hx : x ∉ xs) :
    (xs ++ [x]).Nodup := by
  rw [List.nodup_append]
  refine ⟨hxs, by simp, fun a ha b hb => ?_⟩
  rw [List.mem_singleton] at hb
  exact fun e => hx (hb ▸ e ▸ ha)

/-! ## Operations -/

def empty : NameMap α := ⟨[], by simp⟩

instance : Inhabited (NameMap α) := ⟨empty⟩

/-- The folded names of the map, in order. -/
def keys (m : NameMap α) : List String := m.toList.map entryKey

/-- The spellings of the names, in order. -/
def names (m : NameMap α) : List String := m.toList.map Prod.fst

def values (m : NameMap α) : List α := m.toList.map Prod.snd

def size (m : NameMap α) : Nat := m.toList.length

def isEmpty (m : NameMap α) : Bool := m.toList.isEmpty

/-- The value under a name, in any spelling. -/
def find? (m : NameMap α) (name : String) : Option α :=
  (m.toList.find? fun e => entryKey e = fold name).map Prod.snd

/-- Whether some entry has this name, in any spelling. -/
def contains (m : NameMap α) (name : String) : Bool := m.toList.any fun e => entryKey e = fold name

/-- Puts a value under a name. An entry of that name keeps its position and takes the new
spelling; otherwise the entry is appended. -/
def insert (m : NameMap α) (name : String) (v : α) : NameMap α where
  toList := insertEntry name v m.toList
  distinct := by
    rw [map_entryKey_insertEntry]
    split
    next => exact m.distinct
    next h => exact nodup_append_singleton m.distinct h

/-- Changes the value under a name, if there is one; spelling and position stay. -/
def modify (m : NameMap α) (name : String) (f : α → α) : NameMap α where
  toList := m.toList.map (modifyEntry name f)
  distinct := by
    rw [map_entryKey_modifyEntry]
    exact m.distinct

/-- Appends a value under a name that has none; a name with a value is left as it is. -/
def ensure (m : NameMap α) (name : String) (v : α) : NameMap α where
  toList := if fold name ∈ m.toList.map entryKey then m.toList else m.toList ++ [(name, v)]
  distinct := by
    split
    next => exact m.distinct
    next h =>
      rw [List.map_append]
      exact nodup_append_singleton m.distinct h

/-- Removes the entry of a name; the others keep their order. -/
def erase (m : NameMap α) (name : String) : NameMap α where
  toList := m.toList.filter fun e => entryKey e ≠ fold name
  distinct := m.distinct.sublist (List.filter_sublist.map _)

def map (f : α → β) (m : NameMap α) : NameMap β where
  toList := m.toList.map fun e => (e.1, f e.2)
  distinct := by
    rw [List.map_map]
    exact m.distinct

/-- Inserts entries one after the other into the empty map. -/
def ofList (es : List (String × α)) : NameMap α :=
  es.foldl (fun m e => m.insert e.1 e.2) empty

/-- The entries as an object of some format, in order. -/
def toMembers (f : α → β) (m : NameMap α) : List (String × β) :=
  m.toList.map fun e => (e.1, f e.2)

/-- Equality up to the order of entries, for values compared by `eq`. -/
def Agrees (eq : α → α → Prop) (m n : NameMap α) : Prop :=
  m.size = n.size ∧ ∀ e ∈ m.toList, ∃ e' ∈ n.toList, e.1 = e'.1 ∧ eq e.2 e'.2

instance (eq : α → α → Prop) [DecidableRel eq] : DecidableRel (Agrees eq) := fun m n =>
  inferInstanceAs (Decidable (m.size = n.size ∧
    ∀ e ∈ m.toList, ∃ e' ∈ n.toList, e.1 = e'.1 ∧ eq e.2 e'.2))

/-! ## Folded names after each operation -/

theorem keys_nodup (m : NameMap α) : m.keys.Nodup := m.distinct

theorem ext {m n : NameMap α} (h : m.toList = n.toList) : m = n := by
  cases m
  cases n
  simp_all

theorem keys_insert (m : NameMap α) (name : String) (v : α) :
    (m.insert name v).keys = if fold name ∈ m.keys then m.keys else m.keys ++ [fold name] :=
  map_entryKey_insertEntry name v m.toList

theorem keys_modify (m : NameMap α) (name : String) (f : α → α) :
    (m.modify name f).keys = m.keys :=
  map_entryKey_modifyEntry name f m.toList

theorem keys_ensure (m : NameMap α) (name : String) (v : α) :
    (m.ensure name v).keys = if fold name ∈ m.keys then m.keys else m.keys ++ [fold name] := by
  unfold keys ensure
  split <;> simp [entryKey]

theorem keys_erase (m : NameMap α) (name : String) :
    (m.erase name).keys = m.keys.filter (· ≠ fold name) := by
  simp only [keys, erase, List.filter_map]
  rfl

theorem contains_iff_mem_keys {m : NameMap α} {name : String} :
    m.contains name = true ↔ fold name ∈ m.keys := by
  simp [contains, keys]

end NameMap

end BuildVocabulary

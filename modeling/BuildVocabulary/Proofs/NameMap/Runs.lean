import BuildVocabulary.Proofs.NameMap.Operations

/-!
# Runs on an indexed store

A name map may be kept in an index from folded names to spelled entries. Such a store holds two
versions of each name, and operations renew them by different rules. After any run of operations
the two agree: the store holds each entry of the map under its folded name, in the order of the
map, and has given the same answers.

* `OrderedIndex`: an index that keeps the order of insertion, by what it promises;
* `OrderedIndex.step`: the operations of a name map on such an index;
* `OrderedIndex.holds_step`, `OrderedIndex.holds_run`: one operation, and any run;
* **`ordered_after_run`**: the store, its answers, and the laws of the map that it holds;
* `OrderedIndex.ofList`: the index that is the list of its entries.
-/

namespace BuildVocabulary

open NameMap (Op)

/-- An index from keys to slots that keeps the order in which keys were inserted. The key of a slot
is set when it is inserted, and slots are changed in their places. -/
structure OrderedIndex (β : Type) where
  Store : Type
  /-- The keys with their slots, in order. -/
  entries : Store → List (String × β)
  empty : Store
  get? : Store → String → Option β
  contains : Store → String → Bool
  /-- Puts a slot under a key, and gives the slot that was there. -/
  insert : Store → String → β → Option β × Store
  /-- Changes the slot under a key. -/
  modify : Store → String → (β → β) → Store
  /-- Appends a slot under a key that has none. -/
  ensure : Store → String → β → Store
  /-- Removes the slot under a key and shifts those after it; gives the slot that was there. -/
  remove : Store → String → Option β × Store
  /-- Changes each slot by its position. -/
  modifyAll : Store → (Nat → β → β) → Store
  entries_empty : entries empty = []
  get?_eq : ∀ s k, get? s k = (entries s).lookup k
  contains_eq : ∀ s k, contains s k = ((entries s).lookup k).isSome
  fst_insert : ∀ s k b, (insert s k b).1 = (entries s).lookup k
  entries_insert : ∀ s k b, entries (insert s k b).2 =
    if k ∈ (entries s).map Prod.fst then (entries s).map fun e => if e.1 = k then (k, b) else e
    else entries s ++ [(k, b)]
  entries_modify : ∀ s k f, entries (modify s k f) =
    (entries s).map fun e => if e.1 = k then (e.1, f e.2) else e
  entries_ensure : ∀ s k b, entries (ensure s k b) =
    if k ∈ (entries s).map Prod.fst then entries s else entries s ++ [(k, b)]
  fst_remove : ∀ s k, (remove s k).1 = (entries s).lookup k
  entries_remove : ∀ s k, entries (remove s k).2 = (entries s).filter fun e => e.1 ≠ k
  entries_modifyAll : ∀ s f, entries (modifyAll s f) =
    (entries s).mapIdx fun i e => (e.1, f i e.2)

/-- Runs operations one after the other, and gives their answers and the last state. -/
def NameMap.run {α σ : Type} (step : σ → Op α → Option α × σ) :
    σ → List (Op α) → List (Option α) × σ
  | s, [] => ([], s)
  | s, op :: ops =>
    let answered := step s op
    let rest := run step answered.2 ops
    (answered.1 :: rest.1, rest.2)

namespace OrderedIndex

variable {α : Type} (I : OrderedIndex (String × α))

/-- Inserts a value under its folded name, with its spelling. -/
def put (s : I.Store) (e : String × α) : I.Store := (I.insert s (fold e.1) e).2

/-- The value under a name. -/
def value? (s : I.Store) (name : String) : Option α := (I.get? s (fold name)).map Prod.snd

/-- The operations of a name map on an index: keys are folded names, slots are spelled entries. -/
def step (s : I.Store) : Op α → Option α × I.Store
  | .insert name v =>
    let replaced := I.insert s (fold name) (name, v)
    (replaced.1.map Prod.snd, replaced.2)
  | .modify name f => (I.value? s name, I.modify s (fold name) fun d => (d.1, f d.2))
  | .ensure name v =>
    let s' := I.ensure s (fold name) (name, v)
    (I.value? s' name, s')
  | .erase name =>
    let removed := I.remove s (fold name)
    (removed.1.map Prod.snd, removed.2)
  | .modifyAll f => (none, I.modifyAll s fun i d => (d.1, f i d.2))
  | .collect es => (none, es.foldl I.put I.empty)

/-- The store holds each entry of the map under its folded name, in order. -/
def Holds (s : I.Store) (m : NameMap α) : Prop :=
  I.entries s = m.toList.map fun e => (fold e.1, e)

namespace Holds

variable {I} {s : I.Store} {m : NameMap α} {name : String} {v : α}

theorem empty : I.Holds I.empty .empty := I.entries_empty

theorem map_fst (h : I.Holds s m) : (I.entries s).map Prod.fst = m.keys := by
  rw [h, List.map_map]
  rfl

theorem lookup (h : I.Holds s m) (name : String) :
    (I.entries s).lookup (fold name) = m.stored? name := by
  rw [h, NameMap.stored?]
  induction m.toList with
  | nil => rfl
  | cons e es ih =>
    rw [List.map_cons, List.lookup_cons, List.find?_cons, ih]
    by_cases he : fold name = fold e.1
    · simp [entryKey, he]
    · have hb : (fold name == fold e.1) = false := beq_false_of_ne he
      simp [entryKey, hb, Ne.symm he]

theorem value? (h : I.Holds s m) (name : String) : I.value? s name = m.find? name := by
  rw [OrderedIndex.value?, I.get?_eq, h.lookup, NameMap.find?_eq_map_stored?]

theorem contains (h : I.Holds s m) (name : String) :
    I.contains s (fold name) = m.contains name := by
  rw [I.contains_eq, h.lookup, NameMap.contains_eq_isSome_stored?]

theorem insert (h : I.Holds s m) (name : String) (v : α) :
    I.Holds (I.insert s (fold name) (name, v)).2 (m.insert name v) := by
  rw [Holds, I.entries_insert, h.map_fst]
  split_ifs with hmem
  · rw [h, NameMap.toList_insert_of_mem_keys hmem, List.map_map, List.map_map]
    refine List.map_congr_left fun e _ => ?_
    by_cases he : fold e.1 = fold name <;> simp [SameName, he]
  · rw [h, NameMap.toList_insert_of_forall_not (NameMap.not_mem_keys_iff.mp hmem), List.map_append]
    rfl

theorem modify (h : I.Holds s m) (name : String) (f : α → α) :
    I.Holds (I.modify s (fold name) fun d => (d.1, f d.2)) (m.modify name f) := by
  rw [Holds, I.entries_modify, h, NameMap.modify, List.map_map, List.map_map]
  refine List.map_congr_left fun e _ => ?_
  by_cases he : fold e.1 = fold name <;> simp [NameMap.modifyEntry, entryKey, he]

theorem ensure (h : I.Holds s m) (name : String) (v : α) :
    I.Holds (I.ensure s (fold name) (name, v)) (m.ensure name v) := by
  rw [Holds, I.entries_ensure, h.map_fst, h]
  by_cases hmem : fold name ∈ m.keys
  · have hlist : (m.ensure name v).toList = m.toList := if_pos hmem
    rw [if_pos hmem, hlist]
  · have hlist : (m.ensure name v).toList = m.toList ++ [(name, v)] := if_neg hmem
    rw [if_neg hmem, hlist, List.map_append]
    rfl

theorem erase (h : I.Holds s m) (name : String) :
    I.Holds (I.remove s (fold name)).2 (m.erase name) := by
  rw [Holds, I.entries_remove, h, List.filter_map]
  rfl

theorem modifyAll (h : I.Holds s m) (f : Nat → α → α) :
    I.Holds (I.modifyAll s fun i d => (d.1, f i d.2)) (m.modifyAll f) := by
  rw [Holds, I.entries_modifyAll, h]
  exact List.ext_getElem (by simp [NameMap.modifyAll]) fun i _ _ => by simp [NameMap.modifyAll]

theorem collect (h : I.Holds s m) (es : List (String × α)) :
    I.Holds (es.foldl I.put s) (es.foldl (fun m e => m.insert e.1 e.2) m) := by
  induction es generalizing s m with
  | nil => exact h
  | cons e es ih => exact ih (h.insert e.1 e.2)

end Holds

variable {I} {s : I.Store} {m : NameMap α}

/-- One operation gives the same answer on both, and the store holds the map again. -/
theorem holds_step (h : I.Holds s m) (op : Op α) :
    (I.step s op).1 = (m.step op).1 ∧ I.Holds (I.step s op).2 (m.step op).2 := by
  cases op with
  | insert name v =>
    refine ⟨?_, h.insert name v⟩
    rw [step, NameMap.step, I.fst_insert, h.lookup, NameMap.find?_eq_map_stored?]
  | modify name f => exact ⟨h.value? name, h.modify name f⟩
  | ensure name v => exact ⟨(h.ensure name v).value? name, h.ensure name v⟩
  | erase name =>
    refine ⟨?_, h.erase name⟩
    rw [step, NameMap.step, I.fst_remove, h.lookup, NameMap.find?_eq_map_stored?]
  | modifyAll f => exact ⟨rfl, h.modifyAll f⟩
  | collect es => exact ⟨rfl, Holds.empty.collect es⟩

theorem holds_run (h : I.Holds s m) (ops : List (Op α)) :
    (NameMap.run I.step s ops).1 = (NameMap.run NameMap.step m ops).1 ∧
      I.Holds (NameMap.run I.step s ops).2 (NameMap.run NameMap.step m ops).2 := by
  induction ops generalizing s m with
  | nil => exact ⟨rfl, h⟩
  | cons op ops ih =>
    obtain ⟨hanswer, hstep⟩ := holds_step h op
    obtain ⟨hanswers, hrun⟩ := ih hstep
    exact ⟨congrArg₂ List.cons hanswer hanswers, hrun⟩

end OrderedIndex

/-- **A name map is an ordered map in every state that it can reach.** After any run of operations
from the empty map, a store on an ordered index has given the same answers as the map, holds each
entry under its folded name in the order of the map, and finds the same values; and the map obeys
the laws of an ordered map. -/
theorem ordered_after_run {α : Type} (I : OrderedIndex (String × α)) (ops : List (Op α)) :
    (NameMap.run I.step I.empty ops).1 = (NameMap.run NameMap.step .empty ops).1 ∧
    I.entries (NameMap.run I.step I.empty ops).2 =
      (NameMap.run NameMap.step .empty ops).2.toList.map (fun e => (fold e.1, e)) ∧
    (∀ name, I.value? (NameMap.run I.step I.empty ops).2 name =
        (NameMap.run NameMap.step .empty ops).2.find? name ∧
      I.contains (NameMap.run I.step I.empty ops).2 (fold name) =
        (NameMap.run NameMap.step .empty ops).2.contains name) ∧
    (NameMap.run NameMap.step .empty ops).2.OrderedLaws := by
  obtain ⟨hanswers, hholds⟩ := OrderedIndex.holds_run OrderedIndex.Holds.empty ops
  exact ⟨hanswers, hholds, fun name => ⟨hholds.value? name, hholds.contains name⟩,
    NameMap.orderedLaws _⟩

/-! ## An index kept as a list -/

/-- The index that is the list of its entries. -/
def OrderedIndex.ofList (β : Type) : OrderedIndex β where
  Store := List (String × β)
  entries := id
  empty := []
  get? es k := es.lookup k
  contains es k := (es.lookup k).isSome
  insert es k b := (es.lookup k,
    if k ∈ es.map Prod.fst then es.map fun e => if e.1 = k then (k, b) else e
    else es ++ [(k, b)])
  modify es k f := es.map fun e => if e.1 = k then (e.1, f e.2) else e
  ensure es k b := if k ∈ es.map Prod.fst then es else es ++ [(k, b)]
  remove es k := (es.lookup k, es.filter fun e => e.1 ≠ k)
  modifyAll es f := es.mapIdx fun i e => (e.1, f i e.2)
  entries_empty := rfl
  get?_eq _ _ := rfl
  contains_eq _ _ := rfl
  fst_insert _ _ _ := rfl
  entries_insert _ _ _ := rfl
  entries_modify _ _ _ := rfl
  entries_ensure _ _ _ := rfl
  fst_remove _ _ := rfl
  entries_remove _ _ := rfl
  entries_modifyAll _ _ := rfl

/-- Every kind of operation, on names that differ from each other in case alone. -/
def mixedOps : List (Op Nat) :=
  [.collect [("b", 1), ("A", 2), ("B", 3)], .ensure "a" 9, .modify "B" (· + 10), .insert "c" 4,
    .insert "C" 5, .erase "x", .erase "A", .modifyAll fun i v => v + i]

/-- The store of the mixed operations has their answers, and its slots keep the newest spelling in
the oldest position. -/
theorem ordered_after_run_mixed :
    (NameMap.run (OrderedIndex.ofList _).step (OrderedIndex.ofList _).empty mixedOps).1 =
      [none, some 2, some 3, none, some 4, none, some 2, none] ∧
    (OrderedIndex.ofList _).entries
        (NameMap.run (OrderedIndex.ofList _).step (OrderedIndex.ofList _).empty mixedOps).2 =
      [("b", ("B", 13)), ("c", ("C", 6))] := by
  obtain ⟨hanswers, hentries, -, -⟩ := ordered_after_run (.ofList _) mixedOps
  constructor
  · rw [hanswers]
    decide +kernel
  · rw [hentries]
    decide +kernel

end BuildVocabulary

import BuildVocabulary.Proofs.NameMap.Operations
import BuildVocabulary.Proofs.Repetition

/-!
# Entries inserted one after the other

Several entries are inserted, and some of them may have the same name. Then the last one of a name
is kept, where the first entry of this name stood.

* `insertAll`: the map after all entries were inserted;
* `keys_insertAll`, `stored?_insertAll`: its names, and the entry of each name;
* `filter_insertAll`: entries of other names stay as they are;
* **`insertAll_insertAll`**: what is overwritten entry by entry leaves no trace.
-/

namespace BuildVocabulary.NameMap

variable {α : Type} {m : NameMap α} {ds es : List (String × α)}

/-- The map after entries were inserted one after the other. -/
def insertAll (es : List (String × α)) (m : NameMap α) : NameMap α :=
  es.foldl (fun m e => m.insert e.1 e.2) m

theorem insertAll_concat (e : String × α) :
    m.insertAll (es ++ [e]) = (m.insertAll es).insert e.1 e.2 := List.foldl_concat ..

theorem keys_insertAll : (m.insertAll es).keys = (es.map entryKey).foldl addNew m.keys := by
  induction es using List.reverseRecOn with
  | nil => rfl
  | append_singleton es e ih =>
    rw [insertAll_concat, keys_insert_eq_addNew, ih, List.map_append, List.map_singleton,
      foldl_addNew_concat]

/-- The last entry that was inserted under a name is stored, or else the entry from before. -/
theorem stored?_insertAll (name : String) : (m.insertAll es).stored? name =
    (es.reverse.find? fun e => SameName e.1 name).or (m.stored? name) := by
  induction es using List.reverseRecOn with
  | nil => rfl
  | append_singleton es e ih =>
    rw [insertAll_concat, stored?_insert, ih, List.reverse_append, List.reverse_singleton,
      List.singleton_append, List.find?_cons]
    by_cases hs : SameName e.1 name
    · simp [hs]
    · simp [hs]

theorem filter_insert {name : String} {v : α} {p : String × α → Bool}
    (hp : ∀ d, SameName d.1 name → p d = false) :
    (m.insert name v).toList.filter p = m.toList.filter p := by
  have hothers : ∀ k : NameMap α, k.toList.filter p = (k.others name).filter p := by
    intro k
    rw [others, List.filter_filter]
    refine List.filter_congr fun d _ => ?_
    by_cases hd : SameName d.1 name
    · rw [hp d hd, Bool.false_and]
    · simp [hd]
  have hstep : (m.step (.insert name v)).2.others name = m.others name := others_step m rfl
  rw [hothers, hothers m]
  exact congrArg (List.filter p) hstep

/-- Entries of names that are not inserted stay as they are, in their order. -/
theorem filter_insertAll : (m.insertAll es).toList.filter (fun d => !named (es.map Prod.fst) d.1) =
    m.toList.filter fun d => !named (es.map Prod.fst) d.1 := by
  suffices h : ∀ p : String × α → Bool, (∀ e ∈ es, ∀ d, SameName d.1 e.1 → p d = false) →
      (m.insertAll es).toList.filter p = m.toList.filter p by
    refine h _ fun e he d hs => ?_
    have hnamed : named (es.map Prod.fst) d.1 = true :=
      named_eq_true_iff.mpr ⟨e.1, List.mem_map_of_mem he, hs.symm⟩
    rw [hnamed]
    rfl
  intro p hp
  induction es using List.reverseRecOn with
  | nil => rfl
  | append_singleton es e ih =>
    rw [insertAll_concat, filter_insert fun d => hp e (by simp) d,
      ih fun d hd => hp d (List.mem_append_left _ hd)]

/-- **Entries that are overwritten by entries of the same names leave no trace.** -/
theorem insertAll_insertAll (h : ds.map Prod.fst = es.map Prod.fst) :
    (m.insertAll ds).insertAll es = m.insertAll es := by
  have hkeys : ds.map entryKey = es.map entryKey := by
    have hfold := congrArg (List.map fold) h
    rw [List.map_map, List.map_map] at hfold
    exact hfold
  refine ext_stored? ?_ fun name => ?_
  · rw [keys_insertAll, keys_insertAll, keys_insertAll, hkeys]
    exact foldl_addNew_of_forall_mem fun k hk => mem_foldl_addNew.mpr (.inr hk)
  · rw [stored?_insertAll, stored?_insertAll, stored?_insertAll]
    cases hlast : es.reverse.find? fun e => SameName e.1 name with
    | some e => rfl
    | none =>
      -- no entry of either list has this name
      have hnone : ds.reverse.find? (fun d => SameName d.1 name) = none := by
        rw [List.find?_eq_none] at hlast ⊢
        intro d hd
        have hmem : d.1 ∈ es.map Prod.fst := h ▸ List.mem_map_of_mem (List.mem_reverse.mp hd)
        obtain ⟨e, he, hname⟩ := List.mem_map.mp hmem
        rw [← hname]
        exact hlast e (List.mem_reverse.mpr he)
      rw [hnone, Option.none_or]

end BuildVocabulary.NameMap

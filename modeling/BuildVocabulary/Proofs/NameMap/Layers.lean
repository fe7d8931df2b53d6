import BuildVocabulary.Proofs.FirstAppearance
import BuildVocabulary.Proofs.NameMap

/-!
# Maps laid over each other

A map is laid over another entry by entry. A step puts an entry of a new name at the end, and
combines an entry of a known name with the one that is there, in its place.

* `ext_stored?`: a map is determined by the order of its names and the entry of each name;
* `Lays c step`: the step lays an entry over a map and combines by `c`;
* `Lays.keys_foldl`, `Lays.stored?_foldl`: the names and the entries of a map under a layer;
* `Lays.foldl_self`: a map laid over itself is the map, if combining is idempotent;
* **`Lays.foldl_assoc`**: layers may be laid over each other first, if combining is associative.
-/

namespace BuildVocabulary.NameMap

variable {α : Type} {m n : NameMap α} {name : String} {v : α}

/-! ## Entries by name -/

/-- The names in their order and the entry of each name determine a map. -/
theorem ext_stored? (hk : m.keys = n.keys) (he : ∀ name, m.stored? name = n.stored? name) :
    m = n := by
  have hlen : m.toList.length = n.toList.length := by simpa [keys] using congrArg List.length hk
  refine ext (List.ext_getElem hlen fun i hi hi' => ?_)
  have hkey : entryKey m.toList[i] = entryKey n.toList[i] := by
    have h := List.getElem_of_eq hk (by simpa [keys] using hi)
    simpa [keys] using h
  have hm : m.stored? m.toList[i].1 = some m.toList[i] :=
    stored?_eq_some_iff.mpr ⟨List.getElem_mem hi, rfl⟩
  have hn : n.stored? m.toList[i].1 = some n.toList[i] :=
    stored?_eq_some_iff.mpr ⟨List.getElem_mem hi', hkey.symm⟩
  rw [he, hn] at hm
  exact (Option.some.inj hm).symm

theorem find?_insertEntry (es : List (String × α)) (k : String) :
    (insertEntry name v es).find? (fun e => entryKey e = k) =
      if fold name = k then some (name, v) else es.find? fun e => entryKey e = k := by
  have hnew : entryKey (name, v) = fold name := rfl
  induction es with
  | nil =>
    rw [insertEntry, List.find?_singleton, hnew, List.find?_nil]
    simp only [decide_eq_true_eq]
  | cons e es ih =>
    rw [insertEntry]
    by_cases hk : fold name = k
    · by_cases he : entryKey e = fold name
      · rw [if_pos he, List.find?_cons_of_pos (by simpa [hnew] using hk), if_pos hk]
      · have hek : ¬ entryKey e = k := fun h => he (h.trans hk.symm)
        rw [if_neg he, List.find?_cons_of_neg (by simpa using hek), ih]
        simp only [hk, if_true]
    · rw [if_neg hk]
      by_cases he : entryKey e = fold name
      · have hek : ¬ entryKey e = k := fun h => hk (he.symm.trans h)
        rw [if_pos he, List.find?_cons_of_neg (by simpa [hnew] using hk),
          List.find?_cons_of_neg (by simpa using hek)]
      · rw [if_neg he, List.find?_cons, List.find?_cons, ih, if_neg hk]

theorem stored?_insert (n : String) :
    (m.insert name v).stored? n = if SameName name n then some (name, v) else m.stored? n :=
  find?_insertEntry m.toList (fold n)

/-! ## Laying entries over a map -/

/-- A step that lays an entry over a map: at the end if its name is new, else in the place of the
entry of its name, combined with it by `c`. -/
structure Lays (c : String × α → String × α → String × α)
    (step : NameMap α → String × α → NameMap α) : Prop where
  keys_step : ∀ m e, (step m e).keys = addNew m.keys (entryKey e)
  stored?_step : ∀ m e n, (step m e).stored? n =
    if SameName e.1 n then Option.merge c (m.stored? n) (some e) else m.stored? n

theorem keys_insert_eq_addNew (e : String × α) :
    (m.insert e.1 e.2).keys = addNew m.keys (entryKey e) := keys_insert m e.1 e.2

theorem keys_eq_addNew_of_contains {e : String × α} (h : m.contains e.1 = true) :
    m.keys = addNew m.keys (entryKey e) := by
  have hmem : entryKey e ∈ m.keys := contains_iff_mem_keys.mp h
  rw [addNew_of_mem hmem]

/-- Insertion lays the new entry over the old one. -/
theorem lays_insert : Lays (fun _ e => e) fun (m : NameMap α) e => m.insert e.1 e.2 where
  keys_step _ e := keys_insert_eq_addNew e
  stored?_step m e n := by
    rw [stored?_insert]
    cases m.stored? n <;> rfl

namespace Lays

variable {c : String × α → String × α → String × α} {step : NameMap α → String × α → NameMap α}

theorem keys_foldl (h : Lays c step) (base layer : NameMap α) :
    (layer.toList.foldl step base).keys = layer.keys.foldl addNew base.keys := by
  unfold NameMap.keys
  generalize layer.toList = es
  induction es generalizing base with
  | nil => rfl
  | cons e es ih =>
    have hstep : (step base e).toList.map entryKey = _ := h.keys_step base e
    rw [List.foldl_cons, ih, hstep, List.map_cons, List.foldl_cons]
    rfl

theorem stored?_foldl_entries (h : Lays c step) {es : List (String × α)}
    (hes : (es.map entryKey).Nodup) (base : NameMap α) (n : String) :
    (es.foldl step base).stored? n =
      Option.merge c (base.stored? n) (es.find? fun e => entryKey e = fold n) := by
  induction es generalizing base with
  | nil => rw [List.foldl_nil, List.find?_nil, Option.merge_none_right]
  | cons e es ih =>
    rw [List.map_cons, List.nodup_cons] at hes
    rw [List.foldl_cons, ih hes.2, h.stored?_step, List.find?_cons]
    by_cases hn : SameName e.1 n
    · -- no other entry of the layer has this name
      have hrest : es.find? (fun d => entryKey d = fold n) = none := by
        refine List.find?_eq_none.mpr fun d hd hdn => hes.1 ?_
        have hkey : entryKey d = entryKey e := (of_decide_eq_true hdn).trans hn.symm
        exact hkey ▸ List.mem_map_of_mem hd
      have he : entryKey e = fold n := hn
      simp only [hn, hrest, he, if_true, decide_true, Option.merge_none_right]
    · have he : ¬ entryKey e = fold n := hn
      simp only [hn, he, if_false, decide_false]

theorem stored?_foldl (h : Lays c step) (base layer : NameMap α) (n : String) :
    (layer.toList.foldl step base).stored? n =
      Option.merge c (base.stored? n) (layer.stored? n) :=
  h.stored?_foldl_entries layer.distinct base n

/-- Where combined values depend on values alone, so do the values under a layer. -/
theorem find?_foldl {g : α → α → α} (h : Lays c step) (hg : ∀ d e, (c d e).2 = g d.2 e.2)
    (base layer : NameMap α) (n : String) :
    (layer.toList.foldl step base).find? n = Option.merge g (base.find? n) (layer.find? n) := by
  simp only [find?_eq_map_stored?, h.stored?_foldl]
  cases base.stored? n with
  | none => simp
  | some d =>
    cases layer.stored? n with
    | none => simp
    | some e => simp [hg]

/-- A map laid over nothing is the map itself. -/
theorem foldl_empty (h : Lays c step) (layer : NameMap α) :
    layer.toList.foldl step .empty = layer := by
  refine ext_stored? ?_ fun n => ?_
  · rw [h.keys_foldl]
    exact (foldl_addNew_nil _).trans (eraseDups_of_nodup layer.keys_nodup)
  · rw [h.stored?_foldl]
    exact Option.merge_none_left

/-- A map laid over itself is the map: no name is new, and no entry changes. -/
theorem foldl_self (h : Lays c step) (hc : ∀ e, c e e = e) (m : NameMap α) :
    m.toList.foldl step m = m := by
  refine ext_stored? ?_ fun n => ?_
  · rw [h.keys_foldl]
    exact foldl_addNew_of_forall_mem fun _ hk => hk
  · rw [h.stored?_foldl]
    cases m.stored? n with
    | none => rfl
    | some e => rw [Option.merge_some_some, hc]

/-- **Layers may be laid over each other first.** The order of names, their spellings and their
values come out the same. -/
theorem foldl_assoc (h : Lays c step) (hc : ∀ d e f, c (c d e) f = c d (c e f))
    (base middle top : NameMap α) :
    top.toList.foldl step (middle.toList.foldl step base) =
      (top.toList.foldl step middle).toList.foldl step base := by
  refine ext_stored? ?_ fun n => ?_
  · simp only [h.keys_foldl]
    exact (foldl_addNew_assoc _ _ _).symm
  · simp only [h.stored?_foldl]
    cases base.stored? n <;> cases middle.stored? n <;> cases top.stored? n <;> simp [hc]

end Lays

end BuildVocabulary.NameMap

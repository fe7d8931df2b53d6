import BuildVocabulary.Proofs.NameMap
import BuildVocabulary.Proofs.FirstAppearance

/-!
# First names and repeated names

Among names that are compared ignoring ASCII case, a name is either the first of its class or
repeats one that stands before it.

* `firsts`, `repeats`: the names of a list of either kind, in order;
* `map_fold_firsts`, `length_repeats_add`: there is one first name a class, and every other name is
  a repetition;
* `firsts_append`: the first names of two lists, one after the other.
-/

namespace BuildVocabulary

/-- Whether a name stands in a list, in any spelling. -/
def named (names : List String) (name : String) : Bool := names.any fun n => SameName n name

/-- The names that some name before them repeats, or those that none does. -/
def occurrences (repeated : Bool) (names : List String) : List String :=
  (names.zipIdx.filter fun e => named (names.take e.2) e.1 = repeated).map Prod.fst

/-- The names that are the first of their class. -/
def firsts (names : List String) : List String := occurrences false names

/-- The names that repeat one before them. -/
def repeats (names : List String) : List String := occurrences true names

variable {xs ys : List String} {x y : String}

theorem named_eq_true_iff : named xs x = true ↔ ∃ n ∈ xs, SameName n x := by
  simp [named]

theorem named_iff_mem_map_fold : named xs x = true ↔ fold x ∈ xs.map fold := by
  rw [named_eq_true_iff, List.mem_map]
  rfl

theorem named_cons : named (y :: xs) x = (decide (SameName y x) || named xs x) := List.any_cons

theorem named_append : named (xs ++ ys) x = (named xs x || named ys x) := List.any_append

theorem named_congr (h : SameName x y) : named xs x = named xs y := by
  rw [Bool.eq_iff_iff, named_iff_mem_map_fold, named_iff_mem_map_fold, show fold x = fold y from h]

theorem occurrences_concat (b : Bool) (xs : List String) (x : String) :
    occurrences b (xs ++ [x]) = occurrences b xs ++ if named xs x = b then [x] else [] := by
  -- what stands before an earlier name is not changed by a name at the end
  have hbefore : ∀ e ∈ xs.zipIdx, (xs ++ [x]).take e.2 = xs.take e.2 := by
    intro e he
    have hlt : e.2 < xs.length := by simpa using List.snd_lt_of_mem_zipIdx he
    exact List.take_append_of_le_length (Nat.le_of_lt hlt)
  have hfilter : (xs.zipIdx.filter fun e => named ((xs ++ [x]).take e.2) e.1 = b) =
      xs.zipIdx.filter fun e => named (xs.take e.2) e.1 = b :=
    List.filter_congr fun e he => by rw [hbefore e he]
  have hlast : (xs ++ [x]).take xs.length = xs := List.take_left
  rw [occurrences, List.zipIdx_append, List.filter_append, List.map_append, hfilter, Nat.zero_add,
    List.zipIdx_singleton, List.filter_singleton, hlast, occurrences]
  by_cases hx : named xs x = b <;> simp [hx]

theorem firsts_concat (xs : List String) (x : String) :
    firsts (xs ++ [x]) = firsts xs ++ if named xs x then [] else [x] := by
  rw [firsts, occurrences_concat]
  cases named xs x <;> rfl

theorem repeats_concat (xs : List String) (x : String) :
    repeats (xs ++ [x]) = repeats xs ++ if named xs x then [x] else [] :=
  occurrences_concat true xs x

theorem mem_of_mem_firsts (h : x ∈ firsts xs) : x ∈ xs := by
  induction xs using List.reverseRecOn with
  | nil => exact h
  | append_singleton xs y ih =>
    rw [firsts_concat] at h
    split_ifs at h with hy
    · exact List.mem_append_left _ (ih (by simpa using h))
    · exact (List.mem_append.mp h).elim (fun hx => List.mem_append_left _ (ih hx))
        fun hx => List.mem_append_right _ hx

/-- There is one first name a class. -/
theorem map_fold_firsts (xs : List String) : (firsts xs).map fold = (xs.map fold).eraseDups := by
  rw [← foldl_addNew_nil]
  induction xs using List.reverseRecOn with
  | nil => rfl
  | append_singleton xs x ih =>
    rw [firsts_concat, List.map_append, ih, List.map_append, List.map_singleton,
      foldl_addNew_concat]
    have hmem : fold x ∈ (xs.map fold).foldl addNew [] ↔ named xs x = true := by
      rw [mem_foldl_addNew, named_iff_mem_map_fold]
      simp
    by_cases hx : named xs x = true
    · rw [addNew_of_mem (hmem.mpr hx), if_pos hx, List.map_nil, List.append_nil]
    · rw [addNew, if_neg (mt hmem.mp hx), if_neg hx, List.map_singleton]

/-- Every name is a repetition, or stands for its class. -/
theorem length_repeats_add (xs : List String) :
    (repeats xs).length + (xs.map fold).eraseDups.length = xs.length := by
  rw [← map_fold_firsts, List.length_map]
  induction xs using List.reverseRecOn with
  | nil => rfl
  | append_singleton xs x ih =>
    rw [firsts_concat, repeats_concat, List.length_append, List.length_append, List.length_append,
      List.length_singleton]
    by_cases hx : named xs x = true
    · rw [if_pos hx, if_pos hx, List.length_singleton, List.length_nil]
      omega
    · rw [if_neg hx, if_neg hx, List.length_singleton, List.length_nil]
      omega

theorem named_firsts : named (firsts xs) x = named xs x := by
  rw [Bool.eq_iff_iff, named_iff_mem_map_fold, named_iff_mem_map_fold, map_fold_firsts,
    List.mem_eraseDups]

theorem firsts_of_nodup (h : (xs.map fold).Nodup) : firsts xs = xs := by
  induction xs using List.reverseRecOn with
  | nil => rfl
  | append_singleton xs x ih =>
    rw [List.map_append, List.nodup_append] at h
    have hnew : named xs x = false := by
      rw [Bool.eq_false_iff, ne_eq, named_iff_mem_map_fold]
      exact fun hx => h.2.2 _ hx _ (List.mem_singleton.mpr rfl) rfl
    rw [firsts_concat, ih h.1, hnew]
    rfl

/-- Of the names of a second list, those are first that the first list does not have. -/
theorem firsts_append (xs ys : List String) :
    firsts (xs ++ ys) = firsts xs ++ firsts (ys.filter fun y => !named xs y) := by
  induction ys using List.reverseRecOn with
  | nil => simp [firsts, occurrences]
  | append_singleton ys y ih =>
    rw [← List.append_assoc, firsts_concat, ih, named_append, List.filter_append]
    cases hy : named xs y with
    | true => simp [hy]
    | false =>
      -- a name of the first list has another spelling of `y` no more than `y` itself
      have hsame : named (ys.filter fun z => !named xs z) y = named ys y := by
        rw [Bool.eq_iff_iff, named_eq_true_iff, named_eq_true_iff]
        constructor
        · rintro ⟨z, hz, hs⟩
          exact ⟨z, List.mem_of_mem_filter hz, hs⟩
        · rintro ⟨z, hz, hs⟩
          have hother : (!named xs z) = true := by rw [named_congr hs, hy]; rfl
          exact ⟨z, List.mem_filter.mpr ⟨hz, hother⟩, hs⟩
      simp [hy, firsts_concat, hsame]

end BuildVocabulary

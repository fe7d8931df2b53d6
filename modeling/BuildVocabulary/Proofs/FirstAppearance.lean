import Mathlib.Data.List.Induction
import Mathlib.Data.List.Nodup

/-!
# Lists in order of first appearance

A list grows by elements that it does not have yet: the names of a map grow like this when another
map is laid over it, and the imports of a model.

* `foldl_addNew_assoc`: elements may be collected on their own before they are added;
* `foldl_addNew_nil`: what is collected from nothing are the first occurrences;
* `foldl_addNew_eq_append`, `nodup_foldl_addNew_iff`: what is there stays as it is, repeated elements
  included, and what follows is new.
-/

namespace BuildVocabulary

/-- Appends an element, unless it is there. -/
def addNew (xs : List String) (x : String) : List String := if x ∈ xs then xs else xs ++ [x]

variable {x y : String} {xs ys zs : List String}

theorem mem_addNew : y ∈ addNew xs x ↔ y ∈ xs ∨ y = x := by
  unfold addNew
  split_ifs with h
  · constructor
    · exact .inl
    · rintro (hy | rfl)
      · exact hy
      · exact h
  · rw [List.mem_append, List.mem_singleton]

theorem addNew_of_mem (h : x ∈ xs) : addNew xs x = xs := if_pos h

theorem mem_foldl_addNew : y ∈ ys.foldl addNew xs ↔ y ∈ xs ∨ y ∈ ys := by
  induction ys generalizing xs with
  | nil => simp
  | cons x ys ih => rw [List.foldl_cons, ih, mem_addNew, List.mem_cons, or_assoc]

/-- Elements that are there already add nothing. -/
theorem foldl_addNew_of_forall_mem (h : ∀ y ∈ ys, y ∈ xs) : ys.foldl addNew xs = xs := by
  induction ys with
  | nil => rfl
  | cons y ys ih =>
    obtain ⟨hy, hys⟩ := List.forall_mem_cons.mp h
    rw [List.foldl_cons, addNew_of_mem hy, ih hys]

theorem foldl_addNew_concat :
    (ys ++ [x]).foldl addNew xs = addNew (ys.foldl addNew xs) x := by
  rw [List.foldl_append, List.foldl_cons, List.foldl_nil]

/-- Adding what has been collected is adding one by one. -/
theorem foldl_addNew_assoc (xs ys zs : List String) :
    (zs.foldl addNew ys).foldl addNew xs = zs.foldl addNew (ys.foldl addNew xs) := by
  induction zs using List.reverseRecOn with
  | nil => rfl
  | append_singleton zs z ih =>
    rw [foldl_addNew_concat, foldl_addNew_concat, ← ih]
    by_cases hz : z ∈ zs.foldl addNew ys
    · have hmem : z ∈ (zs.foldl addNew ys).foldl addNew xs := mem_foldl_addNew.mpr (.inr hz)
      rw [addNew_of_mem hz, addNew_of_mem hmem]
    · have hnew : addNew (zs.foldl addNew ys) z = zs.foldl addNew ys ++ [z] := if_neg hz
      rw [hnew, foldl_addNew_concat]

theorem foldl_addNew_nil (xs : List String) : xs.foldl addNew [] = xs.eraseDups := by
  induction xs using List.reverseRecOn with
  | nil => rfl
  | append_singleton xs x ih =>
    rw [foldl_addNew_concat, ih, List.eraseDups_append]
    by_cases hx : x ∈ xs
    · have hnone : [x].removeAll xs = [] := by simp [List.removeAll, hx]
      rw [addNew_of_mem (List.mem_eraseDups.mpr hx), hnone, List.eraseDups_nil, List.append_nil]
    · have hone : [x].removeAll xs = [x] := by simp [List.removeAll, hx]
      have hnew : x ∉ xs.eraseDups := fun hmem => hx (List.mem_eraseDups.mp hmem)
      rw [addNew, if_neg hnew, hone, List.eraseDups_cons, List.filter_nil, List.eraseDups_nil]

theorem foldl_addNew_eraseDups (xs ys : List String) :
    ys.foldl addNew xs.eraseDups = (xs ++ ys).eraseDups := by
  rw [← foldl_addNew_nil, ← foldl_addNew_nil, List.foldl_append]

theorem eraseDups_of_nodup (h : xs.Nodup) : xs.eraseDups = xs := by
  induction xs with
  | nil => rfl
  | cons x xs ih =>
    rw [List.nodup_cons] at h
    have hfilter : xs.filter (fun y => !y == x) = xs := by
      refine List.filter_eq_self.mpr fun y hy => ?_
      have hne : y ≠ x := fun e => h.1 (e ▸ hy)
      simpa using hne
    rw [List.eraseDups_cons, hfilter, ih h.2]

/-- The first occurrences of the elements that are not there yet are added at the end. -/
theorem foldl_addNew_eq_append (xs ys : List String) :
    ys.foldl addNew xs = xs ++ (ys.removeAll xs).eraseDups := by
  induction ys generalizing xs with
  | nil => exact (List.append_nil xs).symm
  | cons y ys ih =>
    rw [List.foldl_cons]
    by_cases hy : y ∈ xs
    · have hskip : (y :: ys).removeAll xs = ys.removeAll xs :=
        List.filter_cons_of_neg (by simpa using hy)
      rw [addNew_of_mem hy, ih, hskip]
    · have hkeep : (y :: ys).removeAll xs = y :: ys.removeAll xs :=
        List.filter_cons_of_pos (by simpa using hy)
      have hrest : ys.removeAll (xs ++ [y]) = (ys.removeAll xs).filter fun z => !z == y := by
        unfold List.removeAll
        rw [List.filter_filter]
        refine List.filter_congr fun z _ => ?_
        rw [List.elem_eq_mem, List.elem_eq_mem]
        by_cases hz : z = y <;> simp [hz]
      rw [addNew, if_neg hy, ih, hrest, hkeep, List.eraseDups_cons, List.append_assoc]
      rfl

theorem nodup_foldl_addNew (h : xs.Nodup) : (ys.foldl addNew xs).Nodup := by
  refine List.foldlRecOn ys addNew h fun zs hzs y _ => ?_
  unfold addNew
  split_ifs with hy
  · exact hzs
  · exact List.concat_eq_append ▸ hzs.concat hy

theorem nodup_eraseDups (xs : List String) : xs.eraseDups.Nodup := by
  rw [← foldl_addNew_nil]
  exact nodup_foldl_addNew List.nodup_nil

/-- Repeated elements are never removed, and never added. -/
theorem nodup_foldl_addNew_iff : (ys.foldl addNew xs).Nodup ↔ xs.Nodup := by
  refine ⟨fun h => ?_, nodup_foldl_addNew⟩
  rw [foldl_addNew_eq_append] at h
  exact (List.nodup_append.mp h).1

/-- Adding to a list and collecting from nothing differ exactly where the list has repetitions. -/
theorem foldl_addNew_eq_eraseDups_iff : ys.foldl addNew xs = (xs ++ ys).eraseDups ↔ xs.Nodup := by
  rw [foldl_addNew_eq_append, List.eraseDups_append, List.append_left_inj]
  refine ⟨fun h => ?_, fun h => (eraseDups_of_nodup h).symm⟩
  rw [h]
  exact nodup_eraseDups xs

end BuildVocabulary

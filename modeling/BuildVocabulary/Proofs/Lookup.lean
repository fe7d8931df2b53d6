import Mathlib.Data.List.Nodup
import Mathlib.Data.List.Perm.Basic

/-!
# Association lists

Lookups in lists of keys with values, such as the members of an object and the tables of tokens.

* `lookup_eq_some_iff_mem`: with distinct keys, a lookup finds what the list holds;
* `lookup_perm`: with distinct keys, lookups do not depend on the order of the list;
* `lookup_reverse_eq_some_iff`: from the end, a lookup finds the last value of a key.
-/

namespace BuildVocabulary

variable {α β : Type} [BEq α] [LawfulBEq α] {k : α} {v : β} {l l' : List (α × β)}

theorem lookup_cons_eq_ite (e : α × β) (l : List (α × β)) (k : α) [Decidable (k = e.1)] :
    (e :: l).lookup k = if k = e.1 then some e.2 else l.lookup k := by
  by_cases h : k = e.1
  · rw [if_pos h, h, List.lookup_cons_self]
  · rw [List.lookup_cons, beq_false_of_ne h, if_neg h]

theorem mem_of_lookup (h : l.lookup k = some v) : (k, v) ∈ l := by
  obtain ⟨l₁, l₂, rfl, -⟩ := List.lookup_eq_some_iff.mp h
  exact List.mem_append_right l₁ List.mem_cons_self

theorem lookup_eq_some_iff_mem (hl : (l.map Prod.fst).Nodup) : l.lookup k = some v ↔ (k, v) ∈ l := by
  refine ⟨mem_of_lookup, fun h => ?_⟩
  cases hw : l.lookup k with
  | none =>
    have := List.lookup_eq_none_iff.mp hw (k, v) h
    simp at this
  | some w =>
    have : (k, w) = (k, v) := List.inj_on_of_nodup_map hl (mem_of_lookup hw) h rfl
    rw [(Prod.mk.inj this).2]

theorem lookup_perm (hl : (l.map Prod.fst).Nodup) (h : l.Perm l') (k : α) :
    l.lookup k = l'.lookup k := by
  have hl' : (l'.map Prod.fst).Nodup := (h.map Prod.fst).nodup_iff.mp hl
  ext v
  rw [lookup_eq_some_iff_mem hl, lookup_eq_some_iff_mem hl']
  exact h.mem_iff

theorem lookup_reverse_eq_some_iff : l.reverse.lookup k = some v ↔
    ∃ pre post, l = pre ++ (k, v) :: post ∧ k ∉ post.map Prod.fst := by
  rw [List.lookup_eq_some_iff]
  constructor
  · rintro ⟨l₁, l₂, hl, hne⟩
    refine ⟨l₂.reverse, l₁.reverse, ?_, fun hk => ?_⟩
    · rw [← l.reverse_reverse, hl, List.reverse_append, List.reverse_cons, List.append_assoc,
        List.singleton_append]
    · obtain ⟨e, he, hek⟩ := List.mem_map.mp hk
      have hne' := hne e (List.mem_reverse.mp he)
      rw [hek, bne_self_eq_false] at hne'
      cases hne'
  · rintro ⟨pre, post, rfl, hk⟩
    refine ⟨post.reverse, pre.reverse, by simp, fun e he => ?_⟩
    have hmem : e.1 ∈ post.map Prod.fst := List.mem_map_of_mem (List.mem_reverse.mp he)
    exact bne_iff_ne.mpr fun h => hk (h ▸ hmem)

end BuildVocabulary

import BuildVocabulary.Proofs.NameMap
import BuildVocabulary.Schema.KindToken
import Mathlib.Data.List.Induction
import Mathlib.Order.Bounds.Basic

/-!
# References to custom types

A reference is cut at its dashes. Of the names that its leading segments make up, the longest
registered one is meant, and the segments behind it are modifiers. If none is registered, the
missing name is the shortest one behind which there are only modifiers.

* `Modifiers.named`, `resolveModifiers_eq`: the modifiers that segments name;
* `RegisteredAt`, `exists_longest?`: the longest registered name;
* `EndsInModifiers`, `exists_peel`: the shortest name before modifiers alone;
* `Resolve.Yields`: a value with diagnostics;
* **`longest_name_resolved`**: what every reference stands for, and what is reported about it.
-/

namespace BuildVocabulary

open Json (Location)

/-! ## Modifiers -/

/-- The segment names a modifier. -/
def IsModifier (segment : String) : Prop := SameName segment "list" ∨ SameName segment "const"

instance : DecidablePred IsModifier := fun _ => inferInstanceAs (Decidable (_ ∨ _))

namespace Modifiers

/-- The modifiers that some segments name. -/
def named (segments : List String) : Modifiers where
  list := segments.any fun s => SameName s "list"
  literal := segments.any fun s => SameName s "const"

variable {s : String} {ss ss' : List String}

theorem named_append : named (ss ++ ss') = (named ss).union (named ss') := by
  simp [named, union, List.any_append]

theorem union_comm (m n : Modifiers) : m.union n = n.union m := by
  simp [union, Bool.or_comm]

theorem empty_union (m : Modifiers) : empty.union m = m := by
  simp [union, empty]

theorem ofToken?_eq : ofToken? s =
    if SameName s "list" then some { list := true }
    else if SameName s "const" then some { literal := true } else none := by
  have hlist : SameName s "list" ↔ fold s = "list" := by
    rw [SameName, show fold "list" = "list" by decide +kernel]
  have hconst : SameName s "const" ↔ fold s = "const" := by
    rw [SameName, show fold "const" = "const" by decide +kernel]
  simp only [ofToken?, List.lookup_cons, List.lookup_nil, hlist, hconst]
  by_cases hl : fold s = "list"
  · simp [hl]
  · rw [beq_false_of_ne hl, if_neg hl]
    by_cases hc : fold s = "const"
    · simp [hc]
    · rw [beq_false_of_ne hc, if_neg hc]

theorem ofToken?_of_isModifier (h : IsModifier s) : ofToken? s = some (named [s]) := by
  -- no segment names both modifiers
  have hother : SameName s "list" → ¬ SameName s "const" := fun hl hc =>
    absurd (hl.symm.trans hc) (by decide +kernel)
  rw [ofToken?_eq]
  by_cases hl : SameName s "list"
  · simp [named, hl, hother hl]
  · have hc : SameName s "const" := h.resolve_left hl
    simp [named, hl, hc]

theorem ofToken?_of_not_isModifier (h : ¬ IsModifier s) : ofToken? s = none := by
  unfold IsModifier at h
  rw [not_or] at h
  rw [ofToken?_eq, if_neg h.1, if_neg h.2]

theorem named_of_not_isModifier (h : ¬ IsModifier s) : named [s] = empty := by
  unfold IsModifier at h
  rw [not_or] at h
  simp [named, empty, h.1, h.2]

end Modifiers

section Parts

variable {registry : Registry} {here : Location} {s : String} {ss : List String} {n k : ℕ}

/-- Segments that name a modifier are taken together, the others are reported in their order. -/
theorem resolveModifiers_eq : resolveModifiers here ss =
    .ok (.named ss) ((ss.filter fun s => ¬ IsModifier s).map (.unknownModifier · here)) := by
  induction ss with
  | nil => rfl
  | cons s ss ih =>
    have hcons : Modifiers.named ([s] ++ ss) = (Modifiers.named [s]).union (.named ss) :=
      Modifiers.named_append
    rw [List.singleton_append] at hcons
    rw [resolveModifiers, ih, hcons]
    by_cases hs : IsModifier s
    · rw [List.filter_cons_of_neg (by simpa using hs), Modifiers.ofToken?_of_isModifier hs]
      exact congrArg (Resolve.ok _) (List.append_nil _)
    · rw [List.filter_cons_of_pos (by simpa using hs), Modifiers.ofToken?_of_not_isModifier hs,
        Modifiers.named_of_not_isModifier hs, Modifiers.empty_union]
      rfl

/-! ## Registered names -/

/-- A type is registered under the name that the first `k` segments make up, in some spelling. -/
def RegisteredAt (registry : Registry) (ss : List String) (k : ℕ) (t : CustomType) : Prop :=
  0 < k ∧ k ≤ ss.length ∧ ∃ n, (n, t) ∈ registry.toList ∧ SameName n (joined (ss.take k))

theorem registeredAt_iff {t : CustomType} : RegisteredAt registry ss k t ↔
    0 < k ∧ k ≤ ss.length ∧ registry.find? (joined (ss.take k)) = some t := by
  rw [RegisteredAt, NameMap.find?_eq_some_iff]

/-- The search goes from long names to short ones. -/
theorem longest?_eq_none (h : ∀ k, 0 < k → k ≤ n → registry.find? (joined (ss.take k)) = none) :
    longest? registry ss n = none := by
  induction n with
  | zero => rfl
  | succ n ih =>
    rw [longest?, h (n + 1) (Nat.succ_pos n) le_rfl]
    exact ih fun k hk hkn => h k hk (Nat.le_succ_of_le hkn)

theorem exists_longest? (h : ∃ k t, 0 < k ∧ k ≤ n ∧ registry.find? (joined (ss.take k)) = some t) :
    ∃ k t, longest? registry ss n = some (t, ss.drop k) ∧ 0 < k ∧ k ≤ n ∧
      registry.find? (joined (ss.take k)) = some t ∧
      ∀ j, k < j → j ≤ n → registry.find? (joined (ss.take j)) = none := by
  induction n with
  | zero =>
    obtain ⟨k, t, hk, hkn, -⟩ := h
    omega
  | succ n ih =>
    rw [longest?]
    cases hlast : registry.find? (joined (ss.take (n + 1))) with
    | some t =>
      exact ⟨n + 1, t, rfl, Nat.succ_pos n, le_rfl, hlast, fun j hj hjn => absurd hj (by omega)⟩
    | none =>
      obtain ⟨k, t, hk, hkn, hfind⟩ := h
      have hne : k ≠ n + 1 := by
        rintro rfl
        rw [hlast] at hfind
        cases hfind
      obtain ⟨k, t, hlongest, hk, hkn, hfind, hlonger⟩ := ih ⟨k, t, hk, by omega, hfind⟩
      refine ⟨k, t, hlongest, hk, by omega, hfind, fun j hj hjn => ?_⟩
      rcases Nat.le_succ_iff.mp hjn with hjn | rfl
      · exact hlonger j hj hjn
      · exact hlast

/-! ## Missing names -/

/-- Behind the first `k` segments there are only modifiers. -/
def EndsInModifiers (ss : List String) (k : ℕ) : Prop :=
  0 < k ∧ k ≤ ss.length ∧ ∀ s ∈ ss.drop k, IsModifier s

theorem endsInModifiers_length (h : ss ≠ []) : EndsInModifiers ss ss.length := by
  refine ⟨List.length_pos_iff.mpr h, le_rfl, ?_⟩
  rw [List.drop_length]
  exact fun s hs => absurd hs List.not_mem_nil

theorem endsInModifiers_concat (hk : k ≤ ss.length) :
    EndsInModifiers (ss ++ [s]) k ↔ EndsInModifiers ss k ∧ IsModifier s := by
  have hle : k ≤ (ss ++ [s]).length := by
    rw [List.length_append]
    omega
  simp only [EndsInModifiers, List.drop_append_of_le_length hk, List.forall_mem_append,
    List.forall_mem_singleton, hk, hle, true_and, and_assoc]

theorem isLeast_length_concat (h : ss = [] ∨ ¬ IsModifier s) :
    IsLeast {k | EndsInModifiers (ss ++ [s]) k} (ss ++ [s]).length := by
  refine ⟨endsInModifiers_length (by simp), fun k hk => ?_⟩
  by_contra hlt
  have hle : k ≤ ss.length := by
    rw [List.length_append, List.length_singleton] at hlt
    omega
  rcases h with rfl | hs
  · exact absurd hk.1 (by simpa using hle)
  · exact hs ((endsInModifiers_concat hle).mp hk).2

theorem isLeast_concat (h : IsLeast {k | EndsInModifiers ss k} k) (hs : IsModifier s) :
    IsLeast {k | EndsInModifiers (ss ++ [s]) k} k := by
  obtain ⟨hend, hleast⟩ := h
  have hk : k ≤ ss.length := hend.2.1
  refine ⟨(endsInModifiers_concat hk).mpr ⟨hend, hs⟩, fun j hj => ?_⟩
  by_contra hlt
  have hle : j ≤ ss.length := by omega
  exact hlt (hleast ((endsInModifiers_concat hle).mp hj).1)

theorem peel_concat_of_not (h : ss = [] ∨ ¬ IsModifier s) :
    peel (ss ++ [s]).reverse = (.empty, (ss ++ [s]).reverse) := by
  rw [List.reverse_append, List.reverse_singleton, List.singleton_append]
  rcases h with rfl | hs
  · rfl
  · cases ss.reverse with
    | nil => rfl
    | cons t ts => rw [peel, Modifiers.ofToken?_of_not_isModifier hs]

theorem peel_concat (h : ss ≠ []) (hs : IsModifier s) : peel (ss ++ [s]).reverse =
    ((Modifiers.named [s]).union (peel ss.reverse).1, (peel ss.reverse).2) := by
  rw [List.reverse_append, List.reverse_singleton, List.singleton_append]
  cases hrev : ss.reverse with
  | nil => exact absurd (List.reverse_eq_nil_iff.mp hrev) h
  | cons t ts => rw [peel, Modifiers.ofToken?_of_isModifier hs]

/-- Modifiers are taken off the end as long as a segment is left for the name. -/
theorem exists_peel (h : ss ≠ []) : ∃ k, IsLeast {k | EndsInModifiers ss k} k ∧
    peel ss.reverse = (.named (ss.drop k), (ss.take k).reverse) := by
  induction ss using List.reverseRecOn with
  | nil => exact absurd rfl h
  | append_singleton ss s ih =>
    by_cases hstop : ss = [] ∨ ¬ IsModifier s
    · refine ⟨_, isLeast_length_concat hstop, ?_⟩
      rw [peel_concat_of_not hstop, List.drop_length, List.take_length]
      rfl
    · rw [not_or, not_not] at hstop
      obtain ⟨hne, hs⟩ := hstop
      obtain ⟨k, hleast, hpeel⟩ := ih hne
      have hk : k ≤ ss.length := hleast.1.2.1
      refine ⟨k, isLeast_concat hleast hs, ?_⟩
      rw [peel_concat hne hs, hpeel, List.drop_append_of_le_length hk,
        List.take_append_of_le_length hk, Modifiers.named_append, Modifiers.union_comm]

end Parts

/-! ## References -/

/-- The part gives this value, with these diagnostics. -/
def Resolve.Yields {α : Type} (r : Resolve α) (a : α) (ds : Diagnostics) : Prop :=
  ∃ fs, r = .ok a fs ∧ fs.map Finding.diagnostic = ds

/-- The warning about a segment that names no modifier. -/
def modifierWarning (here : Location) (segment : String) : Diagnostic :=
  ⟨.warning, s!"unknown value kind modifier '{segment}' at '{here.text}'"⟩

/-- The error about a name that is not registered. -/
def missingNameError (here : Location) (name : String) : Diagnostic :=
  ⟨.error, if name = "" then s!"custom type reference at '{here.text}' has no name"
    else s!"custom type '{name}' referenced at '{here.text}' is not defined"⟩

/-- The kind of a custom type with the modifiers that some segments name. -/
def referenceKind (segments : List String) : Kind where
  base := .customType
  modifiers := { Modifiers.named segments with customType := true }

section References

variable {registry : Registry} {here : Location} {reference : String}

theorem resolveToken_reference : resolveToken registry here ("@" ++ reference) =
    resolveReference registry here reference := by
  have hlist : ("@" ++ reference).toList = '@' :: reference.toList := by
    rw [String.toList_append]
    rfl
  rw [resolveToken, hlist]
  exact congrArg (resolveReference registry here) String.ofList_toList

theorem adding_named (ss : List String) :
    Kind.ofCustomType.adding (.named ss) = referenceKind ss := by
  simp [Kind.adding, Kind.ofCustomType, referenceKind, Modifiers.union, Modifiers.named]

theorem resolveReference_of_longest? {t : CustomType} {rest : List String}
    (h : longest? registry (segments reference) (segments reference).length = some (t, rest)) :
    (resolveReference registry here reference).Yields ⟨referenceKind rest, some t⟩
      ((rest.filter fun s => ¬ IsModifier s).map (modifierWarning here)) := by
  refine ⟨(rest.filter fun s => ¬ IsModifier s).map (.unknownModifier · here), ?_, ?_⟩
  · rw [resolveReference]
    simp only [h, resolveModifiers_eq, Resolve.ok_bind]
    rw [adding_named]
    exact congrArg (Resolve.ok _) (List.append_nil _)
  · rw [List.map_map]
    rfl

theorem diagnostic_missingType (name : String) :
    (missingType name here).diagnostic = missingNameError here name := by
  rw [missingType, missingNameError]
  by_cases h : name = ""
  · have hempty : name.isEmpty = true := String.isEmpty_iff.mpr h
    rw [if_pos hempty, if_pos h]
    rfl
  · have hempty : ¬ name.isEmpty = true := mt String.isEmpty_iff.mp h
    rw [if_neg hempty, if_neg h]
    rfl

theorem yields_of_registered (here : Location)
    (h : ∃ k t, RegisteredAt registry (segments reference) k t) :
    ∃ k t, IsGreatest {k | ∃ t, RegisteredAt registry (segments reference) k t} k ∧
      RegisteredAt registry (segments reference) k t ∧
      (resolveToken registry here ("@" ++ reference)).Yields
        ⟨referenceKind ((segments reference).drop k), some t⟩
        ((((segments reference).drop k).filter fun s => ¬ IsModifier s).map
          (modifierWarning here)) := by
  simp only [registeredAt_iff] at h ⊢
  obtain ⟨k, t, hlongest, hk, hkn, hfind, hlonger⟩ := exists_longest? h
  refine ⟨k, t, ⟨⟨t, hk, hkn, hfind⟩, ?_⟩, ⟨hk, hkn, hfind⟩, ?_⟩
  · rintro j ⟨u, -, hjn, hu⟩
    by_contra hlt
    have hnone := hlonger j (by omega) hjn
    rw [hnone] at hu
    cases hu
  · rw [resolveToken_reference]
    exact resolveReference_of_longest? hlongest

theorem yields_of_not_registered
    (h : ¬ ∃ k t, RegisteredAt registry (segments reference) k t) :
    ∃ k, IsLeast {k | EndsInModifiers (segments reference) k} k ∧
      (resolveToken registry here ("@" ++ reference)).Yields
        ⟨referenceKind ((segments reference).drop k), none⟩
        [missingNameError here (joined ((segments reference).take k))] := by
  have hlongest : longest? registry (segments reference) (segments reference).length = none := by
    refine longest?_eq_none fun k hk hkn => Option.eq_none_iff_forall_ne_some.mpr fun t ht => ?_
    exact h ⟨k, t, registeredAt_iff.mpr ⟨hk, hkn, ht⟩⟩
  obtain ⟨k, hleast, hpeel⟩ := exists_peel (segments_ne_nil reference)
  refine ⟨k, hleast, [missingType (joined ((segments reference).take k)) here], ?_, ?_⟩
  · rw [resolveToken_reference, resolveReference]
    simp only [hlongest, hpeel, List.reverse_reverse]
    rw [adding_named]
  · rw [List.map_singleton, diagnostic_missingType]

/-- A registered name stands for itself, whatever it ends in. -/
theorem yields_of_name {n name : String} {t : CustomType} (h : (n, t) ∈ registry.toList)
    (hs : SameName n name) :
    (resolveToken registry here ("@" ++ name)).Yields ⟨.ofCustomType, some t⟩ [] := by
  have hwhole : joined ((segments name).take (segments name).length) = name := by
    rw [List.take_length, joined_segments]
  have hself : RegisteredAt registry (segments name) (segments name).length t :=
    ⟨List.length_pos_iff.mpr (segments_ne_nil name), le_rfl, n, h, by rwa [hwhole]⟩
  obtain ⟨k, u, ⟨-, hgreatest⟩, hu, hyields⟩ := yields_of_registered here ⟨_, t, hself⟩
  obtain rfl : (segments name).length = k := le_antisymm (hgreatest ⟨t, hself⟩) hu.2.1
  obtain rfl : t = u := Option.some.inj
    ((registeredAt_iff.mp hself).2.2.symm.trans (registeredAt_iff.mp hu).2.2)
  rwa [List.drop_length] at hyields

end References

/-- **A reference means the longest registered name that it begins with.** The segments behind this
name are its modifiers, and each one that is none is a warning. Where no name is registered, the
shortest name before modifiers alone is reported missing. So every registered name, in any
spelling, refers to its own type without diagnostics. -/
theorem longest_name_resolved (registry : Registry) (here : Location) :
    (∀ reference, (∃ k t, RegisteredAt registry (segments reference) k t) →
      ∃ k t, IsGreatest {k | ∃ t, RegisteredAt registry (segments reference) k t} k ∧
        RegisteredAt registry (segments reference) k t ∧
        (resolveToken registry here ("@" ++ reference)).Yields
          ⟨referenceKind ((segments reference).drop k), some t⟩
          ((((segments reference).drop k).filter fun s => ¬ IsModifier s).map
            (modifierWarning here))) ∧
    (∀ reference, (¬ ∃ k t, RegisteredAt registry (segments reference) k t) →
      ∃ k, IsLeast {k | EndsInModifiers (segments reference) k} k ∧
        (resolveToken registry here ("@" ++ reference)).Yields
          ⟨referenceKind ((segments reference).drop k), none⟩
          [missingNameError here (joined ((segments reference).take k))]) ∧
    ∀ n t name, (n, t) ∈ registry.toList → SameName n name →
      (resolveToken registry here ("@" ++ name)).Yields ⟨.ofCustomType, some t⟩ [] :=
  ⟨fun _ => yields_of_registered here, fun _ => yields_of_not_registered,
    fun _ _ _ => yields_of_name⟩

/-- Names that begin with each other, and end in words for modifiers. -/
def paintRegistry : Registry := .ofList [
  ("Color", { name := some "Color" }),
  ("Color-list", { name := some "Color-list" }),
  ("flat-Const", { name := some "flat-Const" })]

/-- A reference to a name with a modifier and another word, one to a name that is missing because of
an empty segment, and one to a name that ends in a modifier. -/
theorem longest_name_resolved_paint (here : Location) :
    (∃ k t, RegisteredAt paintRegistry (segments "COLOR-list-const-x") k t) ∧
    (∃ k t, IsGreatest {k | ∃ t, RegisteredAt paintRegistry (segments "COLOR-list-const-x") k t} k ∧
      RegisteredAt paintRegistry (segments "COLOR-list-const-x") k t ∧
      (resolveToken paintRegistry here "@COLOR-list-const-x").Yields
        ⟨referenceKind ((segments "COLOR-list-const-x").drop k), some t⟩
        ((((segments "COLOR-list-const-x").drop k).filter fun s => ¬ IsModifier s).map
          (modifierWarning here))) ∧
    (¬ ∃ k t, RegisteredAt paintRegistry (segments "flat--list") k t) ∧
    (∃ k, IsLeast {k | EndsInModifiers (segments "flat--list") k} k ∧
      (resolveToken paintRegistry here "@flat--list").Yields
        ⟨referenceKind ((segments "flat--list").drop k), none⟩
        [missingNameError here (joined ((segments "flat--list").take k))]) ∧
    ("flat-Const", { name := some "flat-Const" }) ∈ paintRegistry.toList ∧
    SameName "flat-Const" "FLAT-const" ∧
    (resolveToken paintRegistry here "@FLAT-const").Yields
      ⟨.ofCustomType, some { name := some "flat-Const" }⟩ [] := by
  have hlist : RegisteredAt paintRegistry (segments "COLOR-list-const-x") 2
      { name := some "Color-list" } :=
    ⟨by decide, by decide +kernel, "Color-list", by decide +kernel, by decide +kernel⟩
  have hregistered : ∃ k t, RegisteredAt paintRegistry (segments "COLOR-list-const-x") k t :=
    ⟨2, _, hlist⟩
  have hnone : ∀ k ∈ [1, 2, 3],
      paintRegistry.find? (joined ((segments "flat--list").take k)) = none := by decide +kernel
  have hlength : (segments "flat--list").length = 3 := by decide +kernel
  have hmissing : ¬ ∃ k t, RegisteredAt paintRegistry (segments "flat--list") k t := by
    rintro ⟨k, t, h⟩
    obtain ⟨hk, hkn, hfind⟩ := registeredAt_iff.mp h
    rw [hnone k (by simp; omega)] at hfind
    cases hfind
  have hflat : ("flat-Const", { name := some "flat-Const" }) ∈ paintRegistry.toList := by
    decide +kernel
  have hsame : SameName "flat-Const" "FLAT-const" := by decide +kernel
  obtain ⟨hlongest, hshortest, hname⟩ := longest_name_resolved paintRegistry here
  exact ⟨hregistered, hlongest _ hregistered, hmissing, hshortest _ hmissing, hflat, hsame,
    hname _ _ _ hflat hsame⟩

end BuildVocabulary

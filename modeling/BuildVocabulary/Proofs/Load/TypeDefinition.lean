import BuildVocabulary.Proofs.Load.Kind

/-!
# Custom types that are defined

However a custom type is written, its name keeps the rule for names and its values are different:
repeated values are left out one by one as they are read.

* `CustomType.WellFormed`: these two rules;
* `CustomType.WellFormed.addValue`, `.addMember`, `.addItems`: each step of reading keeps them;
* `wellFormed_of_resolveType`, `wellFormed_of_resolveNamedType`: types that are written out;
* `wellFormed_of_resolveToken`: types that a token refers to.
-/

namespace BuildVocabulary

open Json (Location Members)

/-- The name, if there is one, keeps the rule for names; no two values are equal ignoring case. -/
structure CustomType.WellFormed (t : CustomType) : Prop where
  name : ∀ name, t.name = some name → isTypeName name = true
  values : t.values.Pairwise fun v w => ¬ SameName v.value w.value

variable {P : Finding → Prop} {registry : Registry} {here : Location} {registered : Option String}
  {t u : CustomType}

theorem requireTypeName_eq_ok {name : String} {u : Unit} :
    requireTypeName name = .ok u ↔ isTypeName name = true := by
  rw [requireTypeName]
  split_ifs with h <;> simp [h]

/-! ## Reading values -/

namespace CustomType.WellFormed

theorem addValue {v : TypeValue} (ht : t.WellFormed) (h : (t.addValue here v).Gives P u) :
    u.WellFormed := by
  unfold CustomType.addValue at h
  split_ifs at h with hfound
  · rw [Resolve.gives_ok] at h
    exact h.1 ▸ ht
  · rw [Resolve.gives_pure] at h
    subst h
    have hnew : ∀ w ∈ t.values, ¬ SameName w.value v.value := by
      intro w hw hsame
      apply hfound
      rw [CustomType.find?, List.find?_isSome]
      exact ⟨w, hw, decide_eq_true hsame⟩
    refine ⟨ht.name, List.pairwise_append.mpr ⟨ht.values, List.pairwise_singleton _ v, ?_⟩⟩
    intro w hw x hx
    rw [List.mem_singleton.mp hx]
    exact hnew w hw

theorem addMember {e : String × Json} (ht : t.WellFormed)
    (h : (t.addMember registered here e).Gives P u) : u.WellFormed := by
  unfold CustomType.addMember at h
  split_ifs at h
  · simp only [Resolve.gives_bind, Resolve.gives_lift, requireTypeName_eq_ok] at h
    obtain ⟨name, -, _, hname, h⟩ := h
    cases registered with
    | some r =>
      rw [Resolve.gives_ok] at h
      exact h.1 ▸ ht
    | none =>
      rw [Resolve.gives_pure] at h
      subst h
      refine ⟨fun n hn => ?_, ht.values⟩
      cases hn
      exact hname
  · simp only [Resolve.gives_bind, Resolve.gives_pure] at h
    obtain ⟨_, -, rfl⟩ := h
    exact ⟨ht.name, ht.values⟩
  · rw [Resolve.gives_pure] at h
    exact h ▸ ht
  · rw [Resolve.gives_ok] at h
    exact h.1 ▸ ht
  · simp only [Resolve.gives_bind] at h
    obtain ⟨_, -, h⟩ := h
    exact ht.addValue h

theorem addItems {i : ℕ} {vs : List Json} (ht : t.WellFormed)
    (h : (t.addItems here i vs).Gives P u) : u.WellFormed := by
  induction vs generalizing i t with
  | nil =>
    rw [CustomType.addItems, Resolve.gives_pure] at h
    exact h ▸ ht
  | cons v vs ih =>
    simp only [CustomType.addItems, Resolve.gives_bind] at h
    obtain ⟨_, -, between, hstep, h⟩ := h
    exact ih (ht.addValue hstep) h

end CustomType.WellFormed

/-! ## Types that are written out -/

theorem wellFormed_of_resolveType {v : Json}
    (hregistered : ∀ name, registered = some name → isTypeName name = true)
    (h : (resolveType registered here v).Gives P t) : t.WellFormed := by
  have hblank : ({ name := registered } : CustomType).WellFormed :=
    ⟨hregistered, List.Pairwise.nil⟩
  cases v with
  | object ms =>
    simp only [resolveType, Resolve.gives_bind, Resolve.gives_pure] at h
    obtain ⟨u, hu, -, -, rfl⟩ := h
    exact hu.foldlM (fun _ _ _ _ ht hstep => ht.addMember hstep) hblank
  | array vs =>
    simp only [resolveType, Resolve.gives_bind, Resolve.gives_pure] at h
    obtain ⟨u, hu, -, -, rfl⟩ := h
    exact hblank.addItems hu
  | _ => exact absurd h Resolve.not_gives_fail

theorem wellFormed_of_resolveNamedType {name : String} {v : Json}
    (h : (resolveNamedType here name v).Gives P t) : t.WellFormed := by
  simp only [resolveNamedType, Resolve.gives_bind, Resolve.gives_lift, requireTypeName_eq_ok] at h
  obtain ⟨-, hname, h⟩ := h
  refine wellFormed_of_resolveType (fun n hn => ?_) h
  cases hn
  exact hname

/-! ## Types that tokens refer to -/

theorem wellFormed_of_resolveToken {token : String} {r : Resolved}
    (hregistry : registry.All fun _ t => t.WellFormed)
    (h : (resolveToken registry here token).Gives P r) (ht : r.customType = some t) :
    t.WellFormed := by
  rcases resolveToken_cases h with ⟨_, href⟩ | ⟨-, -, hnone⟩
  · rcases (resolveReference_cases href).2 with ⟨u, name, hu, hname⟩ | ⟨hnone, -⟩
    · obtain ⟨n, hmem, -⟩ := NameMap.find?_eq_some_iff.mp hname
      obtain rfl : u = t := Option.some.inj (hu.symm.trans ht)
      exact hregistry _ hmem
    · rw [hnone] at ht
      cases ht
  · rw [hnone] at ht
    cases ht

end BuildVocabulary

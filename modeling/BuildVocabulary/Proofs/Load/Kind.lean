import BuildVocabulary.Proofs.Lookup
import BuildVocabulary.Proofs.Resolve
import BuildVocabulary.Proofs.Validity
import BuildVocabulary.Schema.Field

/-!
# The kinds that fields declare

A field gets its kind from a type token, from list separators and from a custom type that is
written out in place. In the kind that results, base and modifiers agree on whether it is a custom
type kind; and if it is one without a custom type, an error was reported.

* `Kind.Consistent`: base and modifiers agree;
* `resolveToken_cases`, `resolveReference_cases`: what tokens stand for;
* `Resolve.Gives.declared`: what holds of every resolved token holds of a field's token;
* **`consistent_of_resolveField`**, **`settled_of_resolveField`**: the kinds of fields.
-/

namespace BuildVocabulary

open Json (Location Members)

/-- A finding that is no error. -/
def Finding.Benign (f : Finding) : Prop := f.severity ≠ .error

namespace Kind

/-- The modifiers mark exactly the kinds with the base of custom types. -/
def Consistent (k : Kind) : Prop := k.modifiers.customType = true ↔ k.base = .customType

/-- A kind whose base or modifiers say that the values come from a custom type. -/
def IsCustomType (k : Kind) : Prop := k.base = .customType ∨ k.modifiers.customType = true

theorem customType_adding (k : Kind) {m : Modifiers} (h : m.customType = false) :
    (k.adding m).modifiers.customType = k.modifiers.customType := by
  simp [adding, Modifiers.union, h]

theorem Consistent.adding {k : Kind} {m : Modifiers} (h : k.Consistent)
    (hm : m.customType = false) : (k.adding m).Consistent := by
  rw [Consistent, k.customType_adding hm]
  exact h

theorem SettledBy.adding {k : Kind} {m : Modifiers} {type : Option CustomType}
    (h : k.SettledBy type) (hm : m.customType = false) : (k.adding m).SettledBy type := by
  rw [SettledBy, k.customType_adding hm]
  exact h

end Kind

/-! ## Tokens -/

theorem BaseKind.ne_customType_of_ofToken? {token : String} {b : BaseKind}
    (h : ofToken? token = some b) : b ≠ .customType := by
  have hmem := mem_of_lookup h
  have hne : ∀ e ∈ tokens, e.2 ≠ .customType := by decide
  exact hne _ hmem

/-- Modifiers that type tokens can spell: lists with the usual separator, and literals. -/
structure Modifiers.Spelled (m : Modifiers) : Prop where
  customType : m.customType = false
  commaList : m.commaList = false

theorem Modifiers.Spelled.empty : Modifiers.empty.Spelled := ⟨rfl, rfl⟩

theorem Modifiers.Spelled.union {m n : Modifiers} (hm : m.Spelled) (hn : n.Spelled) :
    (m.union n).Spelled := by
  constructor
  · simp [Modifiers.union, hm.customType, hn.customType]
  · simp [Modifiers.union, hm.commaList, hn.commaList]

theorem Modifiers.spelled_of_ofToken? {token : String} {m : Modifiers}
    (h : ofToken? token = some m) : m.Spelled := by
  have hmem := mem_of_lookup h
  simp only [List.mem_cons, Prod.mk.injEq, List.not_mem_nil, or_false] at hmem
  rcases hmem with ⟨-, rfl⟩ | ⟨-, rfl⟩ <;> exact ⟨rfl, rfl⟩

theorem spelled_peel (ss : List String) : (peel ss).1.Spelled := by
  fun_induction peel ss with
  | case1 s t ss m hm ms rest hpeel ih =>
    rw [hpeel] at ih
    exact (Modifiers.spelled_of_ofToken? hm).union ih
  | case2 => exact Modifiers.Spelled.empty
  | case3 => exact Modifiers.Spelled.empty

section Tokens

variable {P : Finding → Prop} {registry : Registry} {here : Location}

theorem spelled_of_resolveModifiers {ss : List String} {m : Modifiers}
    (h : (resolveModifiers here ss).Gives P m) : m.Spelled := by
  induction ss generalizing m with
  | nil =>
    rw [resolveModifiers, Resolve.gives_pure] at h
    exact h ▸ Modifiers.Spelled.empty
  | cons s ss ih =>
    rw [resolveModifiers] at h
    split at h
    next n hn =>
      simp only [Resolve.gives_bind, Resolve.gives_pure] at h
      obtain ⟨ms, hms, rfl⟩ := h
      exact (Modifiers.spelled_of_ofToken? hn).union (ih hms)
    next =>
      simp only [Resolve.gives_bind] at h
      obtain ⟨_, _, hms⟩ := h
      exact ih hms

theorem ne_customType_of_resolveBase {token : String} {b : BaseKind}
    (h : (resolveBase here token).Gives P b) : b ≠ .customType := by
  unfold resolveBase at h
  split at h
  next c hc =>
    rw [Resolve.gives_pure] at h
    exact h ▸ BaseKind.ne_customType_of_ofToken? hc
  next =>
    rw [Resolve.gives_ok] at h
    exact h.1 ▸ by decide

/-- A reference to a missing type is an error. -/
theorem not_benign_missingType (name : String) : ¬ (missingType name here).Benign := by
  unfold missingType
  split_ifs <;> simp [Finding.Benign, Finding.severity]

theorem exists_find?_of_longest? {ss rest : List String} {n : ℕ} {t : CustomType}
    (h : longest? registry ss n = some (t, rest)) : ∃ name, registry.find? name = some t := by
  induction n with
  | zero => cases h
  | succ n ih =>
    rw [longest?] at h
    split at h
    next u hu =>
      cases h
      exact ⟨_, hu⟩
    next => exact ih h

/-- A reference gives the kind of custom types with modifiers. Its custom type is registered, or a
missing one is reported. -/
theorem resolveReference_cases {reference : String} {r : Resolved}
    (h : (resolveReference registry here reference).Gives P r) :
    (∃ ms : Modifiers, ms.Spelled ∧ r.kind = Kind.ofCustomType.adding ms) ∧
      ((∃ t name, r.customType = some t ∧ registry.find? name = some t) ∨
        r.customType = none ∧ ∃ name, P (missingType name here)) := by
  unfold resolveReference at h
  dsimp only at h
  split at h
  next t rest hlongest =>
    simp only [Resolve.gives_bind, Resolve.gives_pure] at h
    obtain ⟨ms, hms, rfl⟩ := h
    obtain ⟨name, hname⟩ := exists_find?_of_longest? hlongest
    exact ⟨⟨ms, spelled_of_resolveModifiers hms, rfl⟩, .inl ⟨t, name, rfl, hname⟩⟩
  next =>
    rw [Resolve.gives_ok] at h
    obtain ⟨rfl, hreport⟩ := h
    exact ⟨⟨_, spelled_peel _, rfl⟩, .inr ⟨rfl, _, hreport _ List.mem_cons_self⟩⟩

/-- A token is a reference, or has neither a custom type nor the kind of one. -/
theorem resolveToken_cases {token : String} {r : Resolved}
    (h : (resolveToken registry here token).Gives P r) :
    (∃ reference, (resolveReference registry here reference).Gives P r) ∨
      r.kind.base ≠ .customType ∧ r.kind.modifiers.Spelled ∧ r.customType = none := by
  unfold resolveToken at h
  split at h
  next reference _ => exact .inl ⟨_, h⟩
  next =>
    right
    split at h
    next =>
      rw [Resolve.gives_pure] at h
      exact h ▸ ⟨by decide, Modifiers.Spelled.empty, rfl⟩
    next s ss _ =>
      simp only [Resolve.gives_bind, Resolve.gives_pure] at h
      obtain ⟨b, hb, ms, hms, rfl⟩ := h
      exact ⟨ne_customType_of_resolveBase hb, spelled_of_resolveModifiers hms, rfl⟩

theorem consistent_of_resolveToken {token : String} {r : Resolved}
    (h : (resolveToken registry here token).Gives P r) : r.kind.Consistent := by
  rcases resolveToken_cases h with ⟨_, href⟩ | ⟨hbase, hmod, -⟩
  · obtain ⟨⟨ms, hms, hkind⟩, -⟩ := resolveReference_cases href
    have hcustom : Kind.ofCustomType.Consistent := by simp [Kind.Consistent, Kind.ofCustomType]
    exact hkind ▸ hcustom.adding hms.customType
  · simp [Kind.Consistent, hbase, hmod.customType]

/-- A token that is resolved without errors has the custom type that its kind asks for. -/
theorem settled_of_resolveToken {token : String} {r : Resolved}
    (h : (resolveToken registry here token).Gives Finding.Benign r) :
    r.kind.SettledBy r.customType := by
  rcases resolveToken_cases h with ⟨_, href⟩ | ⟨-, hmod, -⟩
  · rcases (resolveReference_cases href).2 with ⟨t, _, ht, -⟩ | ⟨-, name, hreport⟩
    · exact fun _ => Option.isSome_iff_exists.mpr ⟨t, ht⟩
    · exact absurd hreport (not_benign_missingType name)
  · simp [Kind.SettledBy, hmod.customType]

/-- No token stands for lists that are separated by commas. -/
theorem commaList_of_resolveToken {token : String} {r : Resolved}
    (h : (resolveToken registry here token).Gives P r) : r.kind.modifiers.commaList = false := by
  rcases resolveToken_cases h with ⟨_, href⟩ | ⟨-, hmod, -⟩
  · obtain ⟨⟨ms, hms, hkind⟩, -⟩ := resolveReference_cases href
    rw [hkind]
    simp [Kind.adding, Modifiers.union, Kind.ofCustomType, hms.commaList]
  · exact hmod.commaList

end Tokens

/-! ## Fields -/

namespace FieldKey

variable {role : Role} {key key' : String} {k : FieldKey}

/-- No two keys that a role may use mean the same. -/
theorem key_unique (h : (table role).lookup key = some k) (h' : (table role).lookup key' = some k) :
    key = key' := by
  have htable : ∀ x ∈ table role, ∀ y ∈ table role, x.2 = y.2 → x.1 = y.1 := by
    cases role <;> decide
  exact htable _ (mem_of_lookup h) _ (mem_of_lookup h') rfl

theorem lookup_type : (table role).lookup "type" = some .type := by
  cases role <;> rfl

theorem lookup_values : (table role).lookup "values" = some .values := by
  cases role <;> rfl

/-- No key of an item gives list separators. -/
theorem ne_listSeparators_of_lookup_item (h : (table .item).lookup key = some k) :
    k ≠ .listSeparators := by
  have htable : ∀ e ∈ table .item, e.2 ≠ .listSeparators := by decide
  exact htable _ (mem_of_lookup h)

end FieldKey

/-- A value that can only be a custom type written out in place. -/
def Json.IsNested (v : Json) : Prop := v.shape = .object ∨ v.shape = .array

namespace Field

variable {P : Finding → Prop} {registry : Registry} {here : Location}

theorem eq_of_putInline {f g : Field} {v : Json} (h : (f.putInline here v).Gives P g) :
    ∃ t, (resolveType none here v).Gives P t ∧ g = { f with inlineType := some t } := by
  simp only [putInline, Resolve.gives_bind, Resolve.gives_pure] at h
  obtain ⟨t, ht, _, -, rfl⟩ := h
  exact ⟨t, ht, rfl⟩

/-- The `type` key sets the token of a field, or a custom type written out in place. -/
theorem eq_of_put_type {f g : Field} {v : Json} (h : (f.put registry here v .type).Gives P g) :
    (∃ token r, v = .text token ∧ (resolveToken registry here token).Gives P r ∧
        g = { f with declared := r }) ∨
      v.IsNested ∧ ∃ t, (resolveType none here v).Gives P t ∧
        g = { f with inlineType := some t } := by
  simp only [put] at h
  split at h
  next token =>
    simp only [Resolve.gives_bind, Resolve.gives_pure] at h
    obtain ⟨r, hr, rfl⟩ := h
    exact .inl ⟨token, r, rfl, hr, rfl⟩
  next => exact .inr ⟨.inl rfl, eq_of_putInline h⟩
  next => exact .inr ⟨.inr rfl, eq_of_putInline h⟩
  next => exact absurd h Resolve.not_gives_fail

/-- A key leaves the token of a field as it is, or sets it to what a token stands for. -/
theorem declared_of_put {f g : Field} {v : Json} {k : FieldKey}
    (h : (f.put registry here v k).Gives P g) :
    g.declared = f.declared ∨
      ∃ token, (resolveToken registry here token).Gives P g.declared := by
  cases k with
  | type =>
    rcases eq_of_put_type h with ⟨token, r, -, hr, rfl⟩ | ⟨-, t, -, rfl⟩
    · exact .inr ⟨token, hr⟩
    · exact .inl rfl
  | values =>
    obtain ⟨t, -, rfl⟩ := eq_of_putInline h
    exact .inl rfl
  | metadata =>
    simp only [put, Resolve.gives_pure] at h
    exact .inl (h ▸ rfl)
  | _ =>
    simp only [put, Resolve.gives_bind, Resolve.gives_pure] at h
    obtain ⟨_, _, rfl⟩ := h
    exact .inl rfl

/-- A member of a field is put under the key that its role knows it by, or changes nothing. -/
theorem add_cases {role : Role} {name : String} {f g : Field} {e : String × Json}
    (h : (f.add registry role name here e).Gives P g) :
    g = f ∨ ∃ k, (FieldKey.table role).lookup e.1 = some k ∧
      (f.put registry (here.key e.1) e.2 k).Gives P g := by
  unfold add at h
  split_ifs at h
  · rw [Resolve.gives_pure] at h
    exact .inl h.symm
  · split at h
    next k hk => exact .inr ⟨k, hk, h⟩
    next =>
      rw [Resolve.gives_ok] at h
      exact .inl h.1.symm

theorem declared_of_add {role : Role} {name : String} {f g : Field} {e : String × Json}
    (h : (f.add registry role name here e).Gives P g) :
    g.declared = f.declared ∨
      ∃ there token, (resolveToken registry there token).Gives P g.declared := by
  rcases add_cases h with rfl | ⟨k, -, hput⟩
  · exact .inl rfl
  · exact (declared_of_put hput).imp_right fun ⟨token, ht⟩ => ⟨_, token, ht⟩

/-! ## What the keys mean together -/

variable {f : Field}

theorem consistent_separatedKind (h : f.declared.kind.Consistent) :
    f.separatedKind.Consistent := by
  unfold separatedKind
  split
  · exact h.adding (Modifiers.customType_ofSeparators _)
  · exact h

theorem settled_separatedKind (h : f.declared.kind.SettledBy f.declared.customType) :
    f.separatedKind.SettledBy f.declared.customType := by
  unfold separatedKind
  split
  · exact h.adding (Modifiers.customType_ofSeparators _)
  · exact h

theorem consistent_resolved (h : f.declared.kind.Consistent) : f.resolved.kind.Consistent := by
  have hsep := consistent_separatedKind h
  unfold resolved
  dsimp only
  split
  · exact hsep
  · split_ifs with hc
    · exact hsep
    · simp [Kind.Consistent, Kind.adding, Kind.ofCustomType, Modifiers.union]
    · exact hsep

/-- Whether the field ends up with the type of its token or with one written out in place, a custom
type kind comes with that type. -/
theorem settled_resolved (h : f.declared.kind.SettledBy f.declared.customType) :
    f.resolved.kind.SettledBy f.resolved.customType := by
  have hsep := settled_separatedKind h
  unfold resolved
  dsimp only
  split
  · exact hsep
  · split_ifs
    · exact hsep
    · exact fun _ => rfl
    · exact fun _ => rfl

end Field

section Fields

variable {P : Finding → Prop} {registry : Registry} {role : Role} {name : String}
  {here : Location} {ms : Members} {f : Field}

/-- What holds of no token and of every token that is resolved holds of the token of a field. -/
theorem Resolve.Gives.declared {Q : Resolved → Prop}
    (h : (resolveField registry role name here ms).Gives P f) (hnone : Q {})
    (htoken : ∀ there token r, (resolveToken registry there token).Gives P r → Q r) :
    Q f.declared := by
  simp only [resolveField, gives_bind, gives_ok] at h
  obtain ⟨g, hg, rfl, -⟩ := h
  refine Gives.foldlM (I := fun f => Q f.declared) hg (fun f e g _ hf hstep => ?_) hnone
  rcases Field.declared_of_add hstep with heq | ⟨there, token, ht⟩
  · exact heq ▸ hf
  · exact htoken there token _ ht

/-- **The kind of a field is consistent.** -/
theorem consistent_of_resolveField (h : (resolveField registry role name here ms).Gives P f) :
    f.resolved.kind.Consistent :=
  Field.consistent_resolved <|
    h.declared (by simp [Kind.Consistent, Modifiers.empty]) fun _ _ _ => consistent_of_resolveToken

/-- **A field without errors has the custom type that its kind asks for.** -/
theorem settled_of_resolveField
    (h : (resolveField registry role name here ms).Gives Finding.Benign f) :
    f.resolved.kind.SettledBy f.resolved.customType :=
  Field.settled_resolved <|
    h.declared (by simp [Kind.SettledBy, Modifiers.empty]) fun _ _ _ => settled_of_resolveToken

end Fields

end BuildVocabulary

import BuildVocabulary.Proofs.Load.Creation
import BuildVocabulary.Proofs.Load.Phases

/-!
# The members of a field

The keys of a field may come in any order. Each of them is kept in a place of its own while the
field is read. So the field is a function of the values of its keys, and it reports what its members
report one by one, then what their values mean together. The one exception is a custom type that
is written out in place, which two keys can hold: of two such types the later one is kept.

* `said`: what the members say under a key;
* `Field.ofMembers`: the field, from the values of its keys;
* `WritesTwoTypes`: both keys hold a custom type;
* `add_ofMembers_eq_ok`: one member more;
* **`resolveField_eq_ok`**: all members.
-/

namespace BuildVocabulary

open Json (Location Members)
open FieldKey (key_unique lookup_type lookup_values)

/-- What follows without a report of its own. -/
theorem Resolve.findings_bind_ok {α β : Type} (r : Resolve α) (g : α → β) :
    (r >>= fun a => .ok (g a) []).findings = r.findings := by
  cases r with
  | ok a fs => rw [ok_bind, after_ok, findings, findings, List.append_nil]
  | fail e => rfl

/-! ## What a key says -/

/-- The truth value of a boolean. -/
def Json.truth? : Json → Option Bool
  | .bool b => some b
  | _ => none

/-- The text of a string, a number or a boolean. -/
def Json.scalarText? : Json → Option String
  | .text s => some s
  | .bool b => some (if b then "true" else "false")
  | .number n => some n.text
  | _ => none

section Readers

variable {here : Location} {v : Json}

theorem eq_of_requireText {s : String} (h : Json.requireText here v = .ok s) :
    some s = v.text? := by
  rw [Json.requireText_eq_ok.mp h, Json.text?]

theorem eq_of_requireText? {d : Option String} (h : Json.requireText? here v = .ok d) :
    d = v.text? := by
  cases v <;> simp_all [Json.requireText?, Json.text?]

theorem eq_of_requireBool {b : Bool} (h : Json.requireBool here v = .ok b) :
    some b = v.truth? := by
  cases v <;> simp_all [Json.requireBool, Json.truth?]

theorem eq_of_requireScalar? {d : Option String} (h : Json.requireScalar? here v = .ok d) :
    d = v.scalarText? := by
  cases v <;> simp_all [Json.requireScalar?, Json.scalarText?]

end Readers

section Said

variable {role : Role} {ms ms' : Members} {e : String × Json} {key key' : String} {k : FieldKey}

theorem lookup_table_of_isComment (h : isComment key = true) :
    (FieldKey.table role).lookup key = none := by
  have htable : ∀ x ∈ FieldKey.table role, isComment x.1 = false := by
    cases role <;> decide
  cases hk : (FieldKey.table role).lookup key with
  | none => rfl
  | some k =>
    have hno := htable _ (mem_of_lookup hk)
    rw [h] at hno
    cases hno

/-- The value under the key by which a role knows something. -/
def said (role : Role) (ms : Members) (k : FieldKey) : Option Json :=
  (List.find? (fun e => (FieldKey.table role).lookup e.1 = some k) ms).map Prod.snd

theorem said_eq_find? (h : (FieldKey.table role).lookup key = some k) :
    said role ms k = ms.find? key := by
  have hiff : ∀ key', (FieldKey.table role).lookup key' = some k ↔ key' = key := fun key' =>
    ⟨fun h' => key_unique h' h, fun h' => h' ▸ h⟩
  unfold said Members.find?
  simp only [hiff]
  induction ms with
  | nil => rfl
  | cons e ms ih =>
    rw [List.find?_cons, List.lookup_cons]
    by_cases he : e.1 = key
    · subst he
      simp
    · rw [beq_false_of_ne (Ne.symm he), decide_eq_false he]
      exact ih

theorem said_eq_none (h : (FieldKey.table role).lookup key = some k) (hnew : key ∉ ms.keys) :
    said role ms k = none := by
  rw [said_eq_find? h, Members.find?, List.lookup_eq_none_iff]
  intro d hd
  have hne : key ≠ d.1 := fun heq => hnew (heq ▸ List.mem_map_of_mem hd)
  exact bne_iff_ne.mpr hne

/-- A role says nothing under a key that it does not know. -/
theorem said_eq_none_of_unknown (h : ∀ key, (FieldKey.table role).lookup key ≠ some k) :
    said role ms k = none := by
  rw [said, Option.map_eq_none_iff, List.find?_eq_none]
  intro e _ he
  exact h e.1 (of_decide_eq_true he)

theorem said_concat_none (h : (FieldKey.table role).lookup e.1 = none) :
    said role (ms ++ [e]) k = said role ms k := by
  unfold said
  rw [List.find?_append, List.find?_singleton, h]
  simp

theorem said_concat (hk : (FieldKey.table role).lookup e.1 = some k) (hnew : e.1 ∉ ms.keys)
    (k' : FieldKey) :
    said role (ms ++ [e]) k' = if k = k' then some e.2 else said role ms k' := by
  by_cases hkk : k = k'
  · subst hkk
    have hnone := said_eq_none hk hnew
    unfold said at hnone ⊢
    rw [List.find?_append, Option.map_eq_none_iff.mp hnone, List.find?_singleton, hk]
    simp
  · unfold said
    rw [List.find?_append, List.find?_singleton, hk]
    simp [hkk]

theorem said_perm (hkeys : ms.keys.Nodup) (h : ms.Perm ms') :
    said role ms k = said role ms' k := by
  by_cases hk : ∃ key, (FieldKey.table role).lookup key = some k
  · obtain ⟨key, hk⟩ := hk
    rw [said_eq_find? hk, said_eq_find? hk]
    exact lookup_perm hkeys h key
  · have hunknown : ∀ key, (FieldKey.table role).lookup key ≠ some k := fun key hkey =>
      hk ⟨key, hkey⟩
    rw [said_eq_none_of_unknown hunknown, said_eq_none_of_unknown hunknown]

end Said

/-! ## The field of some members -/

/-- What the type token stands for. -/
def tokenPart (registry : Registry) (here : Location) : Option Json → Resolve Resolved
  | some (.text token) => resolveToken registry (here.key "type") token
  | _ => pure {}

/-- The custom type that is written out in place, under `type` or else under `values`. -/
def inlinePart (here : Location) : Option Json → Option Json → Resolve (Option CustomType)
  | some (.object ms), _ => some <$> resolveType none (here.key "type") (.object ms)
  | some (.array vs), _ => some <$> resolveType none (here.key "type") (.array vs)
  | _, some v => some <$> resolveType none (here.key "values") v
  | _, none => pure none

/-- What the values under the keys of a field mean one by one. -/
def Field.ofMembers (registry : Registry) (role : Role) (here : Location) (ms : Members) :
    Field where
  description := (said role ms .description).bind Json.text?
  declared := (tokenPart registry here (said role ms .type)).valueD {}
  inlineType := (inlinePart here (said role ms .type) (said role ms .values)).valueD none
  deprecated := (said role ms .deprecated).bind Json.truth?
  deprecationMessage := (said role ms .deprecationMessage).bind Json.text?
  separators := (said role ms .listSeparators).bind Json.text?
  defaultValue := (said role ms .defaultValue).bind Json.scalarText?
  required := ((said role ms .required).bind Json.truth?).getD false
  includeDescription := (said role ms .includeDescription).bind Json.text?
  metadata := said role ms .metadata

/-- A custom type is written out under `type`, and there is a `values` key too. -/
def WritesTwoTypes (ms : Members) : Prop :=
  (∃ v : Json, ("type", v) ∈ ms ∧ v.IsNested) ∧ "values" ∈ ms.keys

section Fields

variable {registry : Registry} {role : Role} {name : String} {here : Location} {ms ms' : Members}
  {e : String × Json} {f g : Field} {fs : List Finding}

theorem tokenPart_nested {v : Json} (h : v.IsNested) :
    tokenPart registry here (some v) = tokenPart registry here none := by
  cases v with
  | text s => rcases h with h | h <;> cases h
  | _ => rfl

theorem inlinePart_text {token : String} {w : Option Json} :
    inlinePart here (some (.text token)) w = inlinePart here none w := by
  cases w <;> rfl

theorem inlinePart_nested {v : Json} {w : Option Json} (h : v.IsNested) :
    inlinePart here (some v) w = some <$> resolveType none (here.key "type") v := by
  cases v with
  | object ms => rfl
  | array vs => rfl
  | _ => rcases h with h | h <;> cases h

theorem inlinePart_values {u : Option Json} {w : Json} (h : ∀ v, u = some v → ¬ v.IsNested) :
    inlinePart here u (some w) = some <$> resolveType none (here.key "values") w := by
  match u with
  | none => rfl
  | some (.object ms) => exact absurd (.inl rfl) (h _ rfl)
  | some (.array vs) => exact absurd (.inr rfl) (h _ rfl)
  | some .null | some (.bool _) | some (.number _) | some (.text _) => rfl

theorem WritesTwoTypes.mono (hsub : ms ⊆ ms') (h : WritesTwoTypes ms) : WritesTwoTypes ms' := by
  obtain ⟨⟨v, hv, hnested⟩, hvalues⟩ := h
  exact ⟨⟨v, hsub hv, hnested⟩, List.map_subset Prod.fst hsub hvalues⟩

theorem Field.ofMembers_congr (h : ∀ k, said role ms k = said role ms' k) :
    Field.ofMembers registry role here ms = Field.ofMembers registry role here ms' := by
  unfold Field.ofMembers
  simp only [h]

theorem ofMembers_concat_none (h : (FieldKey.table role).lookup e.1 = none) :
    Field.ofMembers registry role here (ms ++ [e]) = Field.ofMembers registry role here ms :=
  Field.ofMembers_congr fun _ => said_concat_none h

/-- Before a `values` key, no custom type is written out under `type`. -/
theorem not_nested_before_values {v u : Json} (h : ¬ WritesTwoTypes (ms ++ [("values", v)]))
    (hu : said role ms .type = some u) : ¬ u.IsNested := by
  intro hnested
  rw [said_eq_find? lookup_type] at hu
  refine h ⟨⟨u, ?_, hnested⟩, ?_⟩
  · exact List.mem_append_left _ (mem_of_lookup hu)
  · exact List.mem_map_of_mem (List.mem_append_right _ List.mem_cons_self)

/-- Before a custom type that is written out under `type`, there is no `values` key. -/
theorem said_values_before_type {v : Json} (h : ¬ WritesTwoTypes (ms ++ [("type", v)]))
    (hv : v.IsNested) : said role ms .values = none := by
  refine said_eq_none lookup_values fun hvalues => h ⟨⟨v, ?_, hv⟩, ?_⟩
  · exact List.mem_append_right _ List.mem_cons_self
  · exact List.map_subset Prod.fst (List.subset_append_left _ _) hvalues

theorem inlinePart_eq_none {u : Option Json} (h : ∀ v, u = some v → ¬ v.IsNested) :
    inlinePart here u none = pure none := by
  match u with
  | none => rfl
  | some (.object ms) => exact absurd (.inl rfl) (h _ rfl)
  | some (.array vs) => exact absurd (.inr rfl) (h _ rfl)
  | some .null | some (.bool _) | some (.number _) | some (.text _) => rfl

/-- A member that is neither a second custom type nor a key for the second time is put in its own
place. -/
theorem ofMembers_concat {P : Finding → Prop} {v : Json} {key : String} {k : FieldKey}
    (hk : (FieldKey.table role).lookup key = some k) (hnew : key ∉ ms.keys)
    (hone : ¬ WritesTwoTypes (ms ++ [(key, v)]))
    (h : ((Field.ofMembers registry role here ms).put registry (here.key key) v k).Gives P g) :
    g = Field.ofMembers registry role here (ms ++ [(key, v)]) := by
  have hsaid := said_concat (e := (key, v)) hk hnew
  cases k with
  | type =>
    obtain rfl : key = "type" := key_unique hk lookup_type
    have hnone : said role ms .type = none := said_eq_none hk hnew
    rcases Field.eq_of_put_type h with ⟨token, r, rfl, ⟨fs, hr, -⟩, rfl⟩ | ⟨hv, t, ⟨fs, ht, -⟩, rfl⟩
    · have hdeclared : tokenPart registry here (some (.text token)) = .ok r fs := hr
      simp [Field.ofMembers, hsaid, hnone, hdeclared, Resolve.valueD, inlinePart_text]
    · simp [Field.ofMembers, hsaid, hnone, tokenPart_nested hv, inlinePart_nested hv, ht,
        Resolve.valueD]
  | values =>
    obtain rfl : key = "values" := key_unique hk lookup_values
    obtain ⟨t, ⟨fs, ht, -⟩, rfl⟩ := Field.eq_of_putInline h
    simp [Field.ofMembers, hsaid, inlinePart_values fun _ => not_nested_before_values hone, ht,
      Resolve.valueD]
  | metadata =>
    rw [Field.put, Resolve.gives_pure] at h
    simp [← h, Field.ofMembers, hsaid]
  | description | deprecationMessage | includeDescription =>
    simp only [Field.put, Resolve.gives_bind, Resolve.gives_lift, Resolve.gives_pure] at h
    obtain ⟨d, hd, rfl⟩ := h
    simp [Field.ofMembers, hsaid, eq_of_requireText? hd]
  | deprecated | required =>
    simp only [Field.put, Resolve.gives_bind, Resolve.gives_lift, Resolve.gives_pure] at h
    obtain ⟨b, hb, rfl⟩ := h
    simp [Field.ofMembers, hsaid, ← eq_of_requireBool hb]
  | listSeparators =>
    simp only [Field.put, Resolve.gives_bind, Resolve.gives_lift, Resolve.gives_pure] at h
    obtain ⟨s, hs, rfl⟩ := h
    simp [Field.ofMembers, hsaid, ← eq_of_requireText hs]
  | defaultValue =>
    simp only [Field.put, Resolve.gives_bind, Resolve.gives_lift, Resolve.gives_pure] at h
    obtain ⟨d, hd, rfl⟩ := h
    simp [Field.ofMembers, hsaid, eq_of_requireScalar? hd]

/-- What one member of a field reports. -/
def memberReports (registry : Registry) (role : Role) (name : String) (here : Location)
    (e : String × Json) : List Finding :=
  (Field.add registry role name here {} e).findings

/-- A key reports what it would report first, if no custom type is replaced by it. -/
theorem findings_put {v : Json} {k : FieldKey}
    (h : f.inlineType = none ∨ k ≠ .values ∧ (k = .type → ¬ v.IsNested)) :
    (f.put registry here v k).findings = (({} : Field).put registry here v k).findings := by
  have hinline : f.inlineType = none →
      (f.putInline here v).findings = (({} : Field).putInline here v).findings := by
    intro hnone
    simp only [Field.putInline, hnone]
    exact (Resolve.findings_bind_ok _ _).trans (Resolve.findings_bind_ok _ _).symm
  cases k with
  | type =>
    cases v with
    | text token => exact (Resolve.findings_bind_ok _ _).trans (Resolve.findings_bind_ok _ _).symm
    | object ms => exact hinline (h.resolve_right fun hno => hno.2 rfl (.inl rfl))
    | array vs => exact hinline (h.resolve_right fun hno => hno.2 rfl (.inr rfl))
    | _ => rfl
  | values => exact hinline (h.resolve_right fun hno => hno.1 rfl)
  | metadata => rfl
  | _ => exact (Resolve.findings_bind_ok _ _).trans (Resolve.findings_bind_ok _ _).symm

/-- One member more. -/
theorem add_ofMembers_eq_ok (hnew : e.1 ∉ ms.keys) (hone : ¬ WritesTwoTypes (ms ++ [e]))
    (h : (Field.ofMembers registry role here ms).add registry role name here e = .ok g fs) :
    g = Field.ofMembers registry role here (ms ++ [e]) ∧
      fs = memberReports registry role name here e := by
  obtain ⟨key, v⟩ := e
  unfold memberReports
  unfold Field.add at h ⊢
  split_ifs at h ⊢ with hcomment
  · cases h
    exact ⟨(ofMembers_concat_none (lookup_table_of_isComment hcomment)).symm, rfl⟩
  · split at h
    next k hk =>
      refine ⟨ofMembers_concat hk hnew hone ⟨fs, h, fun _ _ => trivial⟩, ?_⟩
      -- where the member writes out a custom type, no other one is there yet
      have hfirst : (Field.ofMembers registry role here ms).inlineType = none ∨
          k ≠ .values ∧ (k = .type → ¬ v.IsNested) := by
        by_cases hvalues : k = .values
        · subst hvalues
          obtain rfl : key = "values" := key_unique hk lookup_values
          left
          rw [Field.ofMembers, said_eq_none lookup_values hnew,
            inlinePart_eq_none fun _ => not_nested_before_values hone]
          rfl
        · by_cases htype : k = .type ∧ v.IsNested
          · obtain ⟨rfl, hv⟩ := htype
            obtain rfl : key = "type" := key_unique hk lookup_type
            left
            rw [Field.ofMembers, said_eq_none lookup_type hnew, said_values_before_type hone hv]
            rfl
          · exact .inr ⟨hvalues, fun hk hv => htype ⟨hk, hv⟩⟩
      rw [← Resolve.findings_of_eq_ok h, findings_put hfirst]
    next hnone =>
      cases h
      exact ⟨(ofMembers_concat_none hnone).symm, rfl⟩

/-- All members, in any order. -/
theorem foldlM_add_eq_ok (hkeys : ms.keys.Nodup) (hone : ¬ WritesTwoTypes ms)
    (h : ms.foldlM (Field.add registry role name here) {} = .ok f fs) :
    f = Field.ofMembers registry role here ms ∧
      fs = ms.flatMap (memberReports registry role name here) := by
  induction ms using List.reverseRecOn generalizing f fs with
  | nil =>
    cases h
    exact ⟨rfl, rfl⟩
  | append_singleton ms e ih =>
    rw [List.foldlM_append, Resolve.bind_eq_ok_iff] at h
    obtain ⟨f', fs', gs, hms, he, rfl⟩ := h
    simp only [List.foldlM_cons, List.foldlM_nil, bind_pure] at he
    rw [Members.keys, List.map_append, List.nodup_append] at hkeys
    obtain ⟨hfront, -, hapart⟩ := hkeys
    have hnew : e.1 ∉ Members.keys ms := fun hmem => hapart _ hmem _ List.mem_cons_self rfl
    obtain ⟨rfl, rfl⟩ := ih hfront (fun h => hone (h.mono (List.subset_append_left _ _))) hms
    obtain ⟨rfl, rfl⟩ := add_ofMembers_eq_ok hnew hone he
    exact ⟨rfl, by rw [List.flatMap_append, List.flatMap_singleton]⟩

/-- **A field as a function of the values of its keys.** It reports what its members report one by
one, then what their values mean together. -/
theorem resolveField_eq_ok (hkeys : ms.keys.Nodup) (hone : ¬ WritesTwoTypes ms)
    (h : resolveField registry role name here ms = .ok f fs) :
    f = Field.ofMembers registry role here ms ∧
      fs = ms.flatMap (memberReports registry role name here) ++ f.closingFindings role name := by
  unfold resolveField at h
  rw [Resolve.bind_eq_ok_iff] at h
  obtain ⟨_, gs, _, hfold, ⟨⟩, rfl⟩ := h
  obtain ⟨rfl, rfl⟩ := foldlM_add_eq_ok hkeys hone hfold
  exact ⟨rfl, rfl⟩

end Fields

end BuildVocabulary

import BuildVocabulary.Proofs.Load.Kind
import BuildVocabulary.Schema.Entry

/-!
# What entries declare

An entry of a section declares a thing of the name that it stands under. Without errors, what it
declares is settled, and an item has no custom type kind.

* `name_of_resolveProperty`, `name_of_resolveMetadata`, `name_of_resolveItem`,
  `name_of_resolveTarget`: names and owners;
* `coherent_of_resolveItem`: the metadata that is declared inside an item;
* `settled_of_resolveProperty`, `settled_of_resolveMetadata`, `settled_of_resolveItem`,
  `not_isCustomType_of_resolveItem`: entries without errors.
-/

namespace BuildVocabulary

open Json (Location)

variable {P : Finding → Prop} {registry : Registry} {here : Location} {name : String} {v : Json}

theorem Kind.settledBy_unknown {type : Option CustomType} : ({} : Kind).SettledBy type := by
  simp [SettledBy, Modifiers.empty]

theorem Kind.not_isCustomType_unknown : ¬ ({} : Kind).IsCustomType := by
  simp [IsCustomType, Modifiers.empty]

/-! ## Properties -/

/-- A property is a bare description, or put together from its field. -/
theorem resolveProperty_cases {p : Property}
    (h : (resolveProperty registry here name v).Gives P p) :
    (∃ s, v = .text s ∧ p = { name, description := some s }) ∨
      ∃ ms f, v = .object ms ∧ (resolveField registry .property name here ms).Gives P f ∧
        p = { name, description := f.description, kind := f.resolved.kind,
              customType := f.resolved.customType, defaultValue := f.defaultValue,
              deprecation := f.deprecation } := by
  cases v with
  | text s =>
    rw [resolveProperty, Resolve.gives_pure] at h
    exact .inl ⟨s, rfl, h.symm⟩
  | object ms =>
    simp only [resolveProperty, Resolve.gives_bind, Resolve.gives_pure] at h
    obtain ⟨f, hf, rfl⟩ := h
    exact .inr ⟨ms, f, rfl, hf, rfl⟩
  | _ => exact absurd h Resolve.not_gives_fail

theorem name_of_resolveProperty {p : Property}
    (h : (resolveProperty registry here name v).Gives P p) : p.name = name := by
  rcases resolveProperty_cases h with ⟨_, -, rfl⟩ | ⟨_, _, -, -, rfl⟩ <;> rfl

theorem settled_of_resolveProperty {p : Property}
    (h : (resolveProperty registry here name v).Gives Finding.Benign p) :
    p.kind.SettledBy p.customType := by
  rcases resolveProperty_cases h with ⟨_, -, rfl⟩ | ⟨_, _, -, hf, rfl⟩
  · exact Kind.settledBy_unknown
  · exact settled_of_resolveField hf

/-! ## Metadata -/

/-- Metadata is a bare description, or put together from its field. -/
theorem resolveMetadata_cases {item : String} {d : Metadata}
    (h : (resolveMetadata registry item here name v).Gives P d) :
    (∃ s, v = .text s ∧ d = { name, item, description := some s }) ∨
      ∃ ms f, v = .object ms ∧ (resolveField registry .metadata name here ms).Gives P f ∧
        d = { name, item, description := f.description, required := f.required,
              kind := f.resolved.kind, customType := f.resolved.customType,
              defaultValue := f.defaultValue, deprecation := f.deprecation } := by
  cases v with
  | text s =>
    rw [resolveMetadata, Resolve.gives_pure] at h
    exact .inl ⟨s, rfl, h.symm⟩
  | object ms =>
    simp only [resolveMetadata, Resolve.gives_bind, Resolve.gives_pure] at h
    obtain ⟨f, hf, rfl⟩ := h
    exact .inr ⟨ms, f, rfl, hf, rfl⟩
  | _ => exact absurd h Resolve.not_gives_fail

theorem name_of_resolveMetadata {item : String} {d : Metadata}
    (h : (resolveMetadata registry item here name v).Gives P d) :
    d.name = name ∧ d.item = item := by
  rcases resolveMetadata_cases h with ⟨_, -, rfl⟩ | ⟨_, _, -, -, rfl⟩ <;> exact ⟨rfl, rfl⟩

theorem settled_of_resolveMetadata {item : String} {d : Metadata}
    (h : (resolveMetadata registry item here name v).Gives Finding.Benign d) :
    d.kind.SettledBy d.customType := by
  rcases resolveMetadata_cases h with ⟨_, -, rfl⟩ | ⟨_, _, -, hf, rfl⟩
  · exact Kind.settledBy_unknown
  · exact settled_of_resolveField hf

/-- What holds of every metadata declaration of an item holds of the entries inside the item. -/
theorem Resolve.Gives.itemMetadata {item : String} {w : Option Json} {m : NameMap Metadata}
    {Q : String → Metadata → Prop} (h : (resolveItemMetadata registry item here w).Gives P m)
    (hQ : ∀ there name v d, (resolveMetadata registry item there name v).Gives P d → Q name d) :
    m.All Q := by
  cases w with
  | none =>
    rw [resolveItemMetadata, gives_pure] at h
    exact h ▸ NameMap.All.empty
  | some w => exact h.resolveSection fun name v d hd => hQ _ name v d hd

/-! ## Items -/

/-- An item is put together from its field and its metadata. -/
theorem resolveItem_eq {i : Item} (h : (resolveItem registry here name v).Gives P i) :
    ∃ ms f m, (resolveField registry .item name here ms).Gives P f ∧
      (f.resolved.kind.modifiers.customType = true → P (.itemCustomType name)) ∧
      (resolveItemMetadata registry name (here.key "metadata") f.metadata).Gives P m ∧
      i = { name, description := f.description, includeDescription := f.includeDescription,
            kind := f.resolved.kind, customType := f.resolved.customType,
            deprecation := f.deprecation, metadata := m } := by
  simp only [resolveItem, Resolve.gives_bind, Resolve.gives_reportIf, Resolve.gives_pure] at h
  obtain ⟨ms, -, f, hf, -, hreport, m, hm, rfl⟩ := h
  exact ⟨ms, f, m, hf, hreport, hm, rfl⟩

theorem name_of_resolveItem {i : Item} (h : (resolveItem registry here name v).Gives P i) :
    i.name = name := by
  obtain ⟨_, _, _, -, -, -, rfl⟩ := resolveItem_eq h
  rfl

theorem coherent_of_resolveItem {i : Item} (h : (resolveItem registry here name v).Gives P i) :
    i.Coherent Eq := by
  obtain ⟨_, _, _, -, -, hm, rfl⟩ := resolveItem_eq h
  refine hm.itemMetadata fun _ _ _ d hd => ?_
  obtain ⟨hname, hitem⟩ := name_of_resolveMetadata hd
  exact ⟨hname.symm, hitem⟩

theorem settled_of_resolveItem {i : Item}
    (h : (resolveItem registry here name v).Gives Finding.Benign i) : i.Settled := by
  obtain ⟨_, _, _, -, -, hm, rfl⟩ := resolveItem_eq h
  exact hm.itemMetadata fun _ _ _ _ => settled_of_resolveMetadata

/-- A custom type kind on an item is an error, whether its type is there or not. -/
theorem not_isCustomType_of_resolveItem {i : Item}
    (h : (resolveItem registry here name v).Gives Finding.Benign i) : ¬ i.kind.IsCustomType := by
  obtain ⟨_, f, _, hf, hreport, -, rfl⟩ := resolveItem_eq h
  have hmod : ¬ f.resolved.kind.modifiers.customType = true := fun hc => hreport hc rfl
  rintro (hbase | hc)
  · exact hmod ((consistent_of_resolveField hf).mpr hbase)
  · exact hmod hc

/-! ## Targets -/

theorem name_of_resolveTarget {t : Target} (h : (resolveTarget here name v).Gives P t) :
    t.name = name := by
  cases v with
  | text s =>
    rw [resolveTarget, Resolve.gives_pure] at h
    exact h ▸ rfl
  | object ms =>
    refine Resolve.Gives.foldlM (I := fun t => t.name = name) h (fun t e t' _ ht hstep => ?_) rfl
    unfold Target.add at hstep
    split_ifs at hstep
    · simp only [Resolve.gives_bind, Resolve.gives_pure] at hstep
      obtain ⟨_, -, rfl⟩ := hstep
      exact ht
    · rw [Resolve.gives_pure] at hstep
      exact hstep ▸ ht
    · rw [Resolve.gives_ok] at hstep
      exact hstep.1 ▸ ht
  | _ => exact absurd h Resolve.not_gives_fail

end BuildVocabulary

import BuildVocabulary.Proofs.Load.Soundness
import BuildVocabulary.Proofs.Load.TypeDefinition

/-!
# Loaded models are typed

The kind, the custom type and the deprecation of a field are put together from several keys. They
fit each other in whatever order the keys come, and still do in the copies that groups make.

* `FieldTyped`: what the three have to do with each other;
* `Item.Typed`, `Model.Typed`: the same for all fields of an item and of a model;
* `typed_of_resolveField`, `typed_of_resolveItem`, `keptByGroups_typed`: the parts of a document;
* `typed_of_resolveDocument`: loaded models.
-/

namespace BuildVocabulary

open Json (Location Members)

/-- Base and modifiers agree on whether the kind is that of a custom type, the custom type keeps its
own rules, and only what is deprecated gives a reason. -/
structure FieldTyped (kind : Kind) (type : Option CustomType) (deprecation : Deprecation) :
    Prop where
  kind : kind.Consistent
  type : ∀ t, type = some t → t.WellFormed
  deprecation : deprecation.message.isSome = true → deprecation.isDeprecated = true

/-- A metadata instance that a document declares. -/
structure Metadata.Typed (d : Metadata) : Prop where
  field : FieldTyped d.kind d.customType d.deprecation
  reserved : d.reserved = false

/-- An item has no lists that are separated by commas. -/
structure Item.Typed (i : Item) : Prop where
  field : FieldTyped i.kind i.customType i.deprecation
  commaList : i.kind.modifiers.commaList = false
  metadata : i.metadata.All fun _ d => d.Typed

/-- Every field of the model is typed, and there are no tasks. -/
structure Model.Typed (m : Model) : Prop where
  properties : m.properties.All fun _ p => FieldTyped p.kind p.customType p.deprecation
  items : m.items.All fun _ i => i.Typed
  tasks : m.tasks = .empty

/-- A field of which nothing is said. -/
theorem FieldTyped.blank : FieldTyped {} none {} := by
  refine ⟨?_, ?_, ?_⟩
  · simp [Kind.Consistent, Modifiers.empty]
  · rintro t ⟨⟩
  · rintro ⟨⟩

variable {P : Finding → Prop} {registry : Registry} {role : Role} {here : Location} {name : String}
  {v : Json} {ms : Members}

/-! ## Fields -/

namespace Field

variable {f g : Field} {k : FieldKey}

theorem inlineType_of_put (h : (f.put registry here v k).Gives P g) :
    g.inlineType = f.inlineType ∨
      ∃ t, (resolveType none here v).Gives P t ∧ g.inlineType = some t := by
  cases k with
  | type =>
    rcases eq_of_put_type h with ⟨_, _, -, -, rfl⟩ | ⟨-, t, ht, rfl⟩
    · exact .inl rfl
    · exact .inr ⟨t, ht, rfl⟩
  | values =>
    obtain ⟨t, ht, rfl⟩ := eq_of_putInline h
    exact .inr ⟨t, ht, rfl⟩
  | metadata =>
    rw [put, Resolve.gives_pure] at h
    exact .inl (h ▸ rfl)
  | _ =>
    simp only [put, Resolve.gives_bind, Resolve.gives_pure] at h
    obtain ⟨_, -, rfl⟩ := h
    exact .inl rfl

theorem separators_of_put (h : (f.put registry here v k).Gives P g) (hk : k ≠ .listSeparators) :
    g.separators = f.separators := by
  cases k with
  | listSeparators => exact absurd rfl hk
  | type => rcases eq_of_put_type h with ⟨_, _, -, -, rfl⟩ | ⟨-, _, -, rfl⟩ <;> rfl
  | values =>
    obtain ⟨_, -, rfl⟩ := eq_of_putInline h
    rfl
  | metadata =>
    rw [put, Resolve.gives_pure] at h
    exact h ▸ rfl
  | _ =>
    simp only [put, Resolve.gives_bind, Resolve.gives_pure] at h
    obtain ⟨_, -, rfl⟩ := h
    rfl

/-- The deprecation of a field gives no reason without being one. -/
theorem isDeprecated_of_message (h : f.deprecation.message.isSome = true) :
    f.deprecation.isDeprecated = true := by
  unfold deprecation at h ⊢
  split_ifs at h ⊢
  · rfl
  · cases h

theorem wellFormed_resolved (hdeclared : ∀ t, f.declared.customType = some t → t.WellFormed)
    (hinline : ∀ t, f.inlineType = some t → t.WellFormed) :
    ∀ t, f.resolved.customType = some t → t.WellFormed := by
  intro t ht
  unfold resolved at ht
  dsimp only at ht
  split at ht
  · exact hdeclared t ht
  next u hu =>
    split_ifs at ht
    · exact hdeclared t ht
    · exact hinline t (hu.trans ht)
    · exact hinline t (hu.trans ht)

end Field

section Fields

variable {f : Field}

theorem wellFormed_inlineType (h : (resolveField registry role name here ms).Gives P f) :
    ∀ t, f.inlineType = some t → t.WellFormed := by
  simp only [resolveField, Resolve.gives_bind, Resolve.gives_ok] at h
  obtain ⟨g, hg, rfl, -⟩ := h
  refine Resolve.Gives.foldlM (I := fun f => ∀ t, f.inlineType = some t → t.WellFormed) hg
    (fun f e g _ hf hstep => ?_) (by rintro t ⟨⟩)
  rcases Field.add_cases hstep with rfl | ⟨k, -, hput⟩
  · exact hf
  · rcases Field.inlineType_of_put hput with hsame | ⟨u, hu, hsome⟩
    · exact hsame ▸ hf
    · intro t ht
      obtain rfl : u = t := Option.some.inj (hsome.symm.trans ht)
      exact wellFormed_of_resolveType (by rintro n ⟨⟩) hu

theorem typed_of_resolveField (hregistry : registry.All fun _ t => t.WellFormed)
    (h : (resolveField registry role name here ms).Gives P f) :
    FieldTyped f.resolved.kind f.resolved.customType f.deprecation where
  kind := consistent_of_resolveField h
  type := by
    refine Field.wellFormed_resolved ?_ (wellFormed_inlineType h)
    refine Resolve.Gives.declared (Q := fun r => ∀ t, r.customType = some t → t.WellFormed) h
      (by rintro t ⟨⟩) fun there token r hr t ht => ?_
    exact wellFormed_of_resolveToken hregistry hr ht
  deprecation := Field.isDeprecated_of_message

/-- Items have no key for list separators, and no token spells the comma. -/
theorem commaList_of_resolveField (h : (resolveField registry .item name here ms).Gives P f) :
    f.resolved.kind.modifiers.commaList = false := by
  have hdeclared : f.declared.kind.modifiers.commaList = false :=
    Resolve.Gives.declared (Q := fun r => r.kind.modifiers.commaList = false) h rfl
      fun _ _ _ => commaList_of_resolveToken
  have hseparators : f.separators = none := by
    simp only [resolveField, Resolve.gives_bind, Resolve.gives_ok] at h
    obtain ⟨g, hg, rfl, -⟩ := h
    refine Resolve.Gives.foldlM (I := fun f => f.separators = none) hg
      (fun f e g _ hf hstep => ?_) rfl
    rcases Field.add_cases hstep with rfl | ⟨k, hk, hput⟩
    · exact hf
    · rw [Field.separators_of_put hput (FieldKey.ne_listSeparators_of_lookup_item hk), hf]
  have hseparated : f.separatedKind = f.declared.kind := by rw [Field.separatedKind, hseparators]
  unfold Field.resolved
  rw [hseparated]
  dsimp only
  split
  · exact hdeclared
  · split_ifs
    · exact hdeclared
    · simp [Kind.adding, Kind.ofCustomType, Modifiers.union, hdeclared]
    · exact hdeclared

end Fields

/-! ## Entries -/

theorem typed_of_resolveProperty {p : Property} (hregistry : registry.All fun _ t => t.WellFormed)
    (h : (resolveProperty registry here name v).Gives P p) :
    FieldTyped p.kind p.customType p.deprecation := by
  rcases resolveProperty_cases h with ⟨_, -, rfl⟩ | ⟨_, _, -, hf, rfl⟩
  · exact FieldTyped.blank
  · exact typed_of_resolveField hregistry hf

theorem typed_of_resolveMetadata {item : String} {d : Metadata}
    (hregistry : registry.All fun _ t => t.WellFormed)
    (h : (resolveMetadata registry item here name v).Gives P d) : d.Typed := by
  rcases resolveMetadata_cases h with ⟨_, -, rfl⟩ | ⟨_, _, -, hf, rfl⟩
  · exact ⟨FieldTyped.blank, rfl⟩
  · exact ⟨typed_of_resolveField hregistry hf, rfl⟩

theorem typed_of_resolveItem {i : Item} (hregistry : registry.All fun _ t => t.WellFormed)
    (h : (resolveItem registry here name v).Gives P i) : i.Typed := by
  obtain ⟨_, _, _, hf, -, hm, rfl⟩ := resolveItem_eq h
  exact {
    field := typed_of_resolveField hregistry hf
    commaList := commaList_of_resolveField hf
    metadata := hm.itemMetadata fun _ _ _ _ => typed_of_resolveMetadata hregistry }

/-! ## Documents -/

/-- A copy loses its deprecation as a whole, so that no reason is left behind. -/
theorem Metadata.Typed.copyFor {d : Metadata} (h : d.Typed) (item : String) :
    (d.copyFor item).Typed where
  field := ⟨h.field.kind, h.field.type, FieldTyped.blank.deprecation⟩
  reserved := h.reserved

theorem keptByGroups_typed (hregistry : registry.All fun _ t => t.WellFormed) :
    KeptByGroups P registry (fun key i => key = i.name ∧ i.Typed) fun _ d => d.Typed where
  named _ _ hi := hi.1
  created _ := ⟨rfl, FieldTyped.blank, rfl, NameMap.All.empty⟩
  attached _ _ _ hi hd := ⟨hi.1, hi.2.field, hi.2.commaList, NameMap.All.insert hi.2.metadata hd⟩
  declared _ _ _ _ _ := typed_of_resolveMetadata hregistry
  copied _ _ _ hd := hd.copyFor _

theorem typed_of_resolveDocument {doc : Json} {m : Model} (h : (resolveDocument doc).Gives P m) :
    m.Typed := by
  obtain ⟨_, registry, items, -, htasks, -, htypes, hproperties, hitems, hitems', -⟩ :=
    resolveDocument_cases h
  have hregistry : registry.All fun _ t => t.WellFormed :=
    htypes.sectionOr_all fun _ _ _ _ => wellFormed_of_resolveNamedType
  have hdeclared : items.All fun key i => key = i.name ∧ i.Typed :=
    hitems.sectionOr_all fun _ _ _ _ hi =>
      ⟨(name_of_resolveItem hi).symm, typed_of_resolveItem hregistry hi⟩
  have hall := hitems'.groups (keptByGroups_typed hregistry) hdeclared
  exact {
    properties := hproperties.sectionOr_all fun _ _ _ _ => typed_of_resolveProperty hregistry
    items := hall.mono fun _ _ hi => hi.2
    tasks := htasks }

end BuildVocabulary

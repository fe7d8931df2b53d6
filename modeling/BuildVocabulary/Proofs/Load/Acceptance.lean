import BuildVocabulary.Proofs.Load.Sections
import BuildVocabulary.Proofs.Load.Shape
import BuildVocabulary.Proofs.Load.TypeDefinition

/-!
# Accepted documents

A document loads exactly if it is in the grammar of schema documents. Each part of a document is
accepted or refused by its own shape: what was resolved before it makes no difference.

* `accepted_resolveSection`: a section is accepted member by member;
* `accepted_resolveType`, `accepted_resolveField`: custom types and fields;
* `accepted_resolveItem`, `accepted_applyGroup`: entries with metadata of their own;
* **`load_accepts_iff`**: whole documents.
-/

namespace BuildVocabulary

open Json (Location Members TypeMember FieldMember)
open Resolve (accepted_bind accepted_bind_iff accepted_bind_left accepted_bind_right
  accepted_foldlM accepted_foldlM_of accepted_ok)

variable {here : Location} {v : Json}

/-! ## Members -/

/-- A part that asks for a shape is accepted if the shape is there and the rest is accepted. -/
theorem accepted_lift_bind {α β : Type} {x : Except LoadError α} {f : α → Resolve β} :
    (liftM x >>= f : Resolve β).Accepted ↔ ∃ a, x = .ok a ∧ (f a).Accepted := by
  simp only [accepted_bind, Resolve.gives_lift]

/-- A loop over the members of an object that skips comments. -/
theorem accepted_members {β : Type} {step : β → String × Json → Resolve β} {b : β} {ms : Members}
    {Q : String → Json → Prop}
    (h : ∀ b e, (step b e).Accepted ↔ (isComment e.1 = false → Q e.1 e.2)) :
    (ms.foldlM step b).Accepted ↔ (Json.object ms).Section Q :=
  accepted_foldlM (fun b e _ => h b e) b

/-- A section is accepted member by member. -/
theorem accepted_resolveSection {α : Type} {again : String → Finding}
    {resolve : Location → String → Json → Resolve α} {Q : String → Json → Prop}
    (h : ∀ there name w, (resolve there name w).Accepted ↔ Q name w) :
    (resolveSection again resolve here v).Accepted ↔ v.Section Q := by
  have hmembers : ∀ ms : Members,
      (declareAll again resolve here ms).Accepted ↔ (Json.object ms).Section Q := by
    refine fun ms => accepted_members fun m e => ?_
    rw [declare]
    split_ifs with hc
    · simp [hc]
    · have hrest : ∀ a, (do
          Resolve.reportIf (m.contains e.1) (again e.1)
          pure (m.insert e.1 a) : Resolve (NameMap α)).Accepted := fun a => accepted_ok
      rw [accepted_bind_left hrest, h]
      simp [hc]
  rw [resolveSection, accepted_lift_bind]
  simp only [Json.requireObject_eq_ok]
  cases v with
  | object ms => simp [hmembers]
  | _ => simp [Json.Section]

/-! ## Custom types -/

theorem accepted_addValue {t : CustomType} {w : TypeValue} : (t.addValue here w).Accepted := by
  unfold CustomType.addValue
  split_ifs <;> simp

theorem accepted_addItems {i : ℕ} {t : CustomType} {vs : List Json} :
    (t.addItems here i vs).Accepted ↔ (Json.array vs).Texts := by
  induction vs generalizing i t with
  | nil => simp [CustomType.addItems, Json.Texts]
  | cons w vs ih =>
    have hrest : ∀ s, (do
        let t ← t.addValue here ⟨s, none⟩
        t.addItems here (i + 1) vs : Resolve CustomType).Accepted ↔ (Json.array vs).Texts := fun s =>
      accepted_bind_right accepted_addValue fun _ => ih
    rw [CustomType.addItems, accepted_lift_bind]
    simp only [hrest, exists_and_right, Json.exists_requireText, Json.Texts, List.forall_mem_cons]

theorem accepted_addMember {registered : Option String} {t : CustomType} {e : String × Json} :
    (t.addMember registered here e).Accepted ↔
      (isComment e.1 = false → TypeMember e.1 e.2) := by
  obtain ⟨key, w⟩ := e
  simp only [CustomType.addMember]
  split_ifs with hname hallow hcomment hdirective
  · have hc : isComment "$name" = false := by decide
    subst hname
    simp only [accepted_lift_bind, Json.requireText_eq_ok, requireTypeName_eq_ok, hc,
      Json.typeMember_name]
    -- the name is checked before it is ignored or taken
    cases registered <;> simp
  · have hc : isComment "$allow-unknown-values" = false := by decide
    subst hallow
    simp only [accepted_lift_bind, Resolve.accepted_pure, and_true, Json.exists_requireBool, hc,
      Json.typeMember_allowUnknown, forall_const]
  · simp [hcomment]
  · rw [Json.typeMember_iff hname hallow]
    simp [hdirective]
  · simp only [accepted_lift_bind, accepted_addValue, and_true, Json.exists_requireText?]
    rw [Json.typeMember_iff hname hallow]
    simp [hcomment, hdirective]

theorem accepted_resolveType {registered : Option String} :
    (resolveType registered here v).Accepted ↔ v.TypeShape := by
  have hrest : ∀ t : CustomType, (do
      Resolve.reportIf (t.values.isEmpty && !t.allowUnknown) (.noValues here)
      pure t : Resolve CustomType).Accepted := fun t => accepted_ok
  unfold resolveType
  cases v with
  | array vs =>
    refine (accepted_bind_left hrest).trans ?_
    rw [accepted_addItems, Json.typeShape_array]
  | object ms =>
    refine (accepted_bind_left hrest).trans ?_
    rw [accepted_members fun _ _ => accepted_addMember, Json.typeShape_object]
  | _ => simp [Json.TypeShape, Json.Texts, Json.Section]

/-! ## Tokens -/

theorem accepted_resolveModifiers {ss : List String} : (resolveModifiers here ss).Accepted := by
  induction ss with
  | nil => exact accepted_ok
  | cons s ss ih =>
    rw [resolveModifiers]
    split
    · exact (accepted_bind_left fun _ => accepted_ok).mpr ih
    · exact (accepted_bind_right Resolve.accepted_report fun _ => Iff.rfl).mpr ih

/-- Every token stands for some kind. -/
theorem accepted_resolveToken {registry : Registry} {token : String} :
    (resolveToken registry here token).Accepted := by
  unfold resolveToken
  split
  · unfold resolveReference
    dsimp only
    split
    · exact (accepted_bind_left fun _ => accepted_ok).mpr accepted_resolveModifiers
    · exact accepted_ok
  · split
    next => exact accepted_ok
    next s ss _ =>
      have hbase : (resolveBase here s).Accepted := by
        unfold resolveBase
        split <;> exact accepted_ok
      have hmods : ∀ base : BaseKind, (do
          let ms ← resolveModifiers here ss
          pure ⟨⟨base, ms⟩, none⟩ : Resolve Resolved).Accepted := fun base =>
        (accepted_bind_left fun _ => accepted_ok).mpr accepted_resolveModifiers
      exact (accepted_bind_left hmods).mpr hbase

/-! ## Fields -/

/-- What may stand under a key that describes a field. -/
def FieldKey.Fits (v : Json) : FieldKey → Prop
  | .description => v.TextOrNull
  | .type => v.shape = .string ∨ v.TypeShape
  | .values => v.TypeShape
  | .deprecated => v.shape = .boolean
  | .deprecationMessage => v.TextOrNull
  | .listSeparators => v.shape = .string
  | .defaultValue => v.Scalar
  | .required => v.shape = .boolean
  | .includeDescription => v.TextOrNull
  | .metadata => True

theorem FieldKey.fits_shared {role : Role} :
    ∀ e ∈ shared, FieldMember role e.1 v → e.2.Fits v := by
  simp only [shared, List.forall_mem_cons, List.not_mem_nil, false_imp_iff, implies_true, and_true]
  exact ⟨fun h => h.description rfl, fun h => h.type rfl, fun h => h.values rfl,
    fun h => h.deprecated rfl, fun h => h.deprecationMessage rfl⟩

theorem FieldKey.fits_table {role : Role} :
    ∀ e ∈ table role, FieldMember role e.1 v → e.2.Fits v := by
  cases role <;> rw [table, List.forall_mem_append] <;> refine ⟨fits_shared, ?_⟩ <;>
    simp only [List.forall_mem_cons, List.not_mem_nil, false_imp_iff, implies_true, and_true]
  case property =>
    exact ⟨fun h => h.listSeparators rfl (by decide), fun h => h.defaultValue rfl (by decide)⟩
  case item => exact ⟨fun h => h.includeDescription rfl rfl, fun _ => trivial⟩
  case metadata =>
    exact ⟨fun h => h.listSeparators rfl (by decide), fun h => h.defaultValue rfl (by decide),
      fun h => h.required rfl rfl⟩

/-- The grammar of fields goes by the keys that each role may use. -/
theorem fieldMember_iff {role : Role} {key : String} : FieldMember role key v ↔
    ∀ k, (FieldKey.table role).lookup key = some k → k.Fits v := by
  refine ⟨fun h k hk => FieldKey.fits_table _ (mem_of_lookup hk) h, fun h => ?_⟩
  exact {
    description := fun hk => h .description (by subst hk; cases role <;> rfl)
    type := fun hk => h .type (by subst hk; cases role <;> rfl)
    values := fun hk => h .values (by subst hk; cases role <;> rfl)
    deprecated := fun hk => h .deprecated (by subst hk; cases role <;> rfl)
    deprecationMessage := fun hk => h .deprecationMessage (by subst hk; cases role <;> rfl)
    listSeparators := fun hk hrole => h .listSeparators (by subst hk; cases role <;> trivial)
    defaultValue := fun hk hrole => h .defaultValue (by subst hk; cases role <;> trivial)
    required := fun hk hrole => h .required (by subst hk hrole; rfl)
    includeDescription := fun hk hrole => h .includeDescription (by subst hk hrole; rfl) }

section Fields

variable {registry : Registry} {role : Role} {name : String}

theorem accepted_putInline {f : Field} : (f.putInline here v).Accepted ↔ v.TypeShape := by
  have hrest : ∀ t : CustomType, (do
      Resolve.reportIf f.inlineType.isSome (.inlineTypeReplaced here)
      pure { f with inlineType := some t } : Resolve Field).Accepted := fun t => accepted_ok
  rw [Field.putInline, accepted_bind_left hrest, accepted_resolveType]

theorem accepted_put {f : Field} {k : FieldKey} :
    (f.put registry here v k).Accepted ↔ k.Fits v := by
  cases k with
  | type =>
    unfold Field.put FieldKey.Fits
    cases v with
    | text token =>
      refine (accepted_bind_left fun _ => accepted_ok).trans ?_
      simp [accepted_resolveToken, Json.shape]
    | object ms => simp [accepted_putInline, Json.shape]
    | array vs => simp [accepted_putInline, Json.shape]
    | _ => simp [Json.TypeShape, Json.Texts, Json.Section, Json.shape]
  | values => exact accepted_putInline
  | metadata => exact iff_true_intro accepted_ok
  | _ =>
    simp only [Field.put, FieldKey.Fits, accepted_lift_bind, Resolve.accepted_pure, and_true,
      Json.exists_requireText, Json.exists_requireText?, Json.exists_requireBool,
      Json.exists_requireScalar?]

theorem accepted_add {f : Field} {e : String × Json} :
    (f.add registry role name here e).Accepted ↔
      (isComment e.1 = false → FieldMember role e.1 e.2) := by
  rw [Field.add, fieldMember_iff]
  split_ifs with hc
  · simp [hc]
  · cases hk : (FieldKey.table role).lookup e.1 with
    | some k => simp [hc, accepted_put]
    | none => simp

theorem accepted_resolveField {ms : Members} :
    (resolveField registry role name here ms).Accepted ↔ (Json.object ms).FieldShape role := by
  rw [resolveField, accepted_bind_left fun _ => accepted_ok]
  exact accepted_members fun _ _ => accepted_add

/-! ## Properties and metadata -/

theorem accepted_resolveProperty :
    (resolveProperty registry here name v).Accepted ↔ v.EntryShape .property := by
  unfold resolveProperty
  cases v with
  | text s => simp
  | object ms =>
    refine (accepted_bind_left fun _ => accepted_ok).trans ?_
    rw [accepted_resolveField, Json.entryShape_object]
  | _ => simp [Json.EntryShape, Json.FieldShape, Json.Section, Json.shape]

theorem accepted_resolveMetadata {item : String} :
    (resolveMetadata registry item here name v).Accepted ↔ v.EntryShape .metadata := by
  unfold resolveMetadata
  cases v with
  | text s => simp
  | object ms =>
    refine (accepted_bind_left fun _ => accepted_ok).trans ?_
    rw [accepted_resolveField, Json.entryShape_object]
  | _ => simp [Json.EntryShape, Json.FieldShape, Json.Section, Json.shape]

/-! ## Items -/

theorem metadata_of_put {f g : Field} {k : FieldKey} {P : Finding → Prop}
    (h : (f.put registry here v k).Gives P g) :
    g.metadata = if k = .metadata then some v else f.metadata := by
  cases k with
  | type => rcases Field.eq_of_put_type h with ⟨_, _, -, -, rfl⟩ | ⟨-, _, -, rfl⟩ <;> rfl
  | values =>
    obtain ⟨_, -, rfl⟩ := Field.eq_of_putInline h
    rfl
  | metadata =>
    rw [Field.put, Resolve.gives_pure] at h
    exact h ▸ rfl
  | _ =>
    simp only [Field.put, Resolve.gives_bind, Resolve.gives_pure] at h
    obtain ⟨_, -, rfl⟩ := h
    rfl

/-- The key for metadata inside an item. -/
theorem lookup_metadata {key : String} {k : FieldKey}
    (h : (FieldKey.table .item).lookup key = some k) : k = .metadata ↔ key = "metadata" := by
  have htable : ∀ e ∈ FieldKey.table .item, e.2 = .metadata ↔ e.1 = "metadata" := by decide
  exact htable _ (mem_of_lookup h)

theorem metadata_of_add {f g : Field} {e : String × Json} {P : Finding → Prop}
    (h : (f.add registry .item name here e).Gives P g) :
    g.metadata = if e.1 = "metadata" then some e.2 else f.metadata := by
  unfold Field.add at h
  split_ifs at h with hc
  · rw [Resolve.gives_pure] at h
    have hne : e.1 ≠ "metadata" := fun heq => absurd (heq ▸ hc) (by decide)
    rw [if_neg hne, h]
  · split at h
    next k hk => simp only [metadata_of_put h, lookup_metadata hk]
    next hnone =>
      have hne : e.1 ≠ "metadata" := fun heq => absurd (heq ▸ hnone) (by decide)
      rw [if_neg hne, (Resolve.gives_ok.mp h).1]

theorem last?_eq_foldl {ms : Members} {key : String} :
    Members.last? ms key = ms.foldl (fun m e => if e.1 = key then some e.2 else m) none := by
  rw [Members.last?, Members.find?, List.foldl_eq_foldr_reverse]
  induction ms.reverse with
  | nil => rfl
  | cons e es ih =>
    rw [List.foldr_cons, ← ih, List.lookup_cons]
    by_cases hk : e.1 = key
    · simp [hk]
    · simp [hk, beq_false_of_ne (Ne.symm hk)]

/-- The metadata of an item is what the last `metadata` key holds. -/
theorem metadata_of_resolveField {ms : Members} {f : Field} {P : Finding → Prop}
    (h : (resolveField registry .item name here ms).Gives P f) :
    f.metadata = Members.last? ms "metadata" := by
  simp only [resolveField, Resolve.gives_bind, Resolve.gives_ok] at h
  obtain ⟨g, hg, rfl, -⟩ := h
  rw [last?_eq_foldl]
  exact hg.foldlM_part fun _ _ _ => metadata_of_add

theorem accepted_resolveItemMetadata {item : String} {w : Option Json} :
    (resolveItemMetadata registry item here w).Accepted ↔ ∀ u, w = some u → u.MetadataShape := by
  cases w with
  | none => simp [resolveItemMetadata]
  | some u =>
    simp only [Option.some.injEq, forall_eq']
    exact accepted_resolveSection fun _ _ _ => accepted_resolveMetadata

theorem accepted_resolveItem : (resolveItem registry here name v).Accepted ↔ v.ItemShape := by
  unfold resolveItem
  rw [accepted_lift_bind]
  simp only [Json.requireObject_eq_ok]
  cases v with
  | object ms =>
    simp only [Json.object.injEq, exists_eq_left']
    -- of the field, only the member with the metadata matters for what follows
    refine accepted_bind_iff accepted_resolveField fun f hf => ?_
    rw [← metadata_of_resolveField hf, ← accepted_resolveItemMetadata]
    exact accepted_bind_right accepted_ok fun _ => accepted_bind_left fun _ => accepted_ok
  | _ => simp [Json.ItemShape]

end Fields

/-! ## Targets -/

theorem accepted_targetAdd {t : Target} {e : String × Json} : (t.add here e).Accepted ↔
    (isComment e.1 = false → e.1 = "description" → e.2.TextOrNull) := by
  unfold Target.add
  split_ifs with hd hc
  · have hc : isComment e.1 = false := by
      rw [hd]
      decide
    simp only [accepted_lift_bind, Resolve.accepted_pure, and_true, Json.exists_requireText?, hc]
    exact ⟨fun h _ _ => h, fun h => h trivial hd⟩
  · simp [hc]
  · simp [hd]

theorem accepted_resolveTarget {name : String} :
    (resolveTarget here name v).Accepted ↔ v.TargetShape := by
  unfold resolveTarget Json.TargetShape
  cases v with
  | text s => simp [Json.shape]
  | object ms =>
    refine (accepted_members (Q := fun key w => key = "description" → w.TextOrNull)
      fun _ _ => accepted_targetAdd).trans ?_
    simp [Json.shape]
  | _ => simp [Json.Section, Json.shape]

/-! ## Metadata groups -/

section Groups

variable {registry : Registry}

theorem accepted_attachAll {owner : String} {decls : List Metadata} {items : NameMap Item} :
    (attachAll owner decls items).Accepted := by
  unfold attachAll
  split
  · exact accepted_ok
  · refine (accepted_bind_left fun _ => accepted_ok).mpr ?_
    exact accepted_foldlM_of (fun _ _ => accepted_ok) _

/-- Attaching fails for no declarations and no items. -/
theorem accepted_distribute {first : String} {others : List String} {decls : List Metadata}
    {items : NameMap Item} : (distribute first others decls items).Accepted := by
  refine (accepted_bind_left fun _ => accepted_attachAll).mpr ?_
  exact accepted_foldlM_of (fun _ _ => accepted_attachAll) items

theorem accepted_resolveDeclarations {owner : String} {ms : Members} :
    (resolveDeclarations registry owner here ms).Accepted ↔ (Json.object ms).Section
      fun key w => isDirective key = false → w.EntryShape .metadata := by
  induction ms with
  | nil => simp [resolveDeclarations, Json.Section]
  | cons e ms ih =>
    simp only [Json.Section] at ih
    simp only [resolveDeclarations, Json.Section, List.forall_mem_cons]
    split_ifs with hskip hd
    -- the list of items is a directive, so the grammar passes it over as well
    · have hvoid : isComment e.1 = false → isDirective e.1 = false → False := by
        intro hc hd
        have hkey : e.1 = appliesTo := by simpa [hc] using hskip
        rw [hkey] at hd
        exact absurd hd (by decide)
      rw [ih]
      exact ⟨fun h => ⟨fun hc hd => (hvoid hc hd).elim, h⟩, fun h => h.2⟩
    · rw [accepted_bind_right Resolve.accepted_report fun _ => ih]
      exact ⟨fun h => ⟨fun _ hno => absurd hd (by simp [hno]), h⟩, fun h => h.2⟩
    · have hc : isComment e.1 = false := by simp_all
      refine accepted_bind_iff ?_ fun _ _ => (accepted_bind_left fun _ => accepted_ok).trans ih
      rw [accepted_resolveMetadata]
      simp [hc, hd]

/-- The declarations of a group are looked at if it applies to some item. -/
theorem accepted_applyGroup {items : NameMap Item} :
    (applyGroup registry here items v).Accepted ↔ v.GroupShape := by
  unfold applyGroup
  rw [accepted_lift_bind]
  simp only [Json.requireObject_eq_ok]
  cases v with
  | object ms =>
    simp only [Json.object.injEq, exists_eq_left', Json.GroupShape]
    rw [show Members.find? ms "$appliesTo" = Members.find? ms appliesTo from rfl]
    cases Members.find? ms appliesTo with
    | none => simp
    | some owners =>
      simp only [Option.some.injEq, forall_eq', accepted_lift_bind]
      rw [← Json.exists_requireStrings (here.key appliesTo)]
      refine exists_congr fun names => and_congr_right fun _ => ?_
      cases names with
      | nil => simp
      | cons name names =>
        refine (accepted_bind_left fun _ => accepted_distribute).trans ?_
        rw [accepted_resolveDeclarations]
        simp
  | _ => simp [Json.GroupShape]

theorem accepted_applyGroups {items : NameMap Item} {i : ℕ} {vs : List Json} :
    (applyGroups registry here i items vs).Accepted ↔ ∀ g ∈ vs, g.GroupShape := by
  induction vs generalizing i items with
  | nil => simp [applyGroups]
  | cons v vs ih =>
    rw [applyGroups, List.forall_mem_cons]
    exact accepted_bind_iff accepted_applyGroup fun _ _ => ih

end Groups

/-! ## Documents -/

theorem accepted_sectionOr {α : Type} {ms : Members} {key : String} {absent : α}
    {resolve : Location → Json → Resolve α} {Q : Json → Prop}
    (h : ∀ there w, (resolve there w).Accepted ↔ Q w) :
    (sectionOr ms key absent resolve).Accepted ↔ ∀ w, ms.find? key = some w → Q w := by
  unfold sectionOr
  cases ms.find? key with
  | none => simp
  | some w => simp [h]

theorem accepted_resolveImports : (resolveImports here v).Accepted ↔ v.Texts := by
  unfold resolveImports
  rw [accepted_lift_bind]
  simp only [Json.requireArray_eq_ok]
  cases v with
  | array vs => simp [Json.exists_requireTexts]
  | _ => simp [Json.Texts]

theorem accepted_resolveRegistry : (resolveRegistry here v).Accepted ↔
    v.Section fun name w => isTypeName name = true ∧ w.TypeShape := by
  refine accepted_resolveSection fun there name w => ?_
  rw [resolveNamedType, accepted_lift_bind]
  simp [requireTypeName_eq_ok, accepted_resolveType]

theorem accepted_resolveGroups {registry : Registry} {items : NameMap Item} :
    (resolveGroups registry items here v).Accepted ↔
      ∃ gs, v = .array gs ∧ ∀ g ∈ gs, g.GroupShape := by
  rw [resolveGroups, accepted_lift_bind]
  simp only [Json.requireArray_eq_ok, accepted_applyGroups]

theorem accepted_resolveMembers {ms : Members} :
    (resolveMembers ms).Accepted ↔ Json.Sections ms := by
  -- one step for each section; no condition mentions what an earlier section gave
  have hparts : (resolveMembers ms).Accepted ↔ _ :=
    accepted_bind_right accepted_ok fun _ =>
    accepted_bind_iff (accepted_sectionOr fun _ _ => accepted_resolveImports) fun _ _ =>
    accepted_bind_iff (accepted_sectionOr fun _ _ => accepted_resolveRegistry) fun _ _ =>
    accepted_bind_iff (accepted_sectionOr fun _ _ =>
      accepted_resolveSection fun _ _ _ => accepted_resolveProperty) fun _ _ =>
    accepted_bind_iff (accepted_sectionOr fun _ _ =>
      accepted_resolveSection fun _ _ _ => accepted_resolveItem) fun _ _ =>
    accepted_bind_iff (accepted_sectionOr fun _ _ => accepted_resolveGroups) fun _ _ =>
    (accepted_bind_left fun _ => accepted_ok).trans (accepted_sectionOr fun _ _ =>
      accepted_resolveSection fun _ _ _ => accepted_resolveTarget)
  rw [hparts]
  constructor
  · rintro ⟨himports, htypes, hproperties, hitems, hgroups, htargets⟩
    exact ⟨himports, htypes, hproperties, hitems, hgroups, htargets⟩
  · rintro ⟨himports, htypes, hproperties, hitems, hgroups, htargets⟩
    exact ⟨himports, htypes, hproperties, hitems, hgroups, htargets⟩

theorem exists_load_iff {doc : Json} :
    (∃ o, load doc = .ok o) ↔ (resolveDocument doc).Accepted := by
  rw [load_eq]
  cases resolveDocument doc with
  | ok m fs => simp [Resolve.outcome]
  | fail e => simp [Resolve.outcome]

/-- **Exactly the documents of the grammar are accepted.** -/
theorem load_accepts_iff {doc : Json} : (∃ o, load doc = .ok o) ↔ doc.DocumentShape := by
  rw [exists_load_iff]
  cases doc with
  | object ms => exact accepted_resolveMembers
  | _ => simp [resolveDocument, Json.DocumentShape]

end BuildVocabulary

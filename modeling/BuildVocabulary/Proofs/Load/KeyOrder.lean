import BuildVocabulary.Proofs.Load.Acceptance
import BuildVocabulary.Proofs.Load.FieldMembers
import BuildVocabulary.Proofs.Load.Reports

/-!
# The order of keys in a field

Entries are the same whatever the order of their keys, unless a custom type is written out in two
places. The kind is put together once all keys are known: from the type token, from list separators
and from a custom type that is written out in place.

* `Resolve.Shuffled`: the same value with the same reports in another order;
* `shuffled_resolveField`: the same members in another order;
* `KindRule`, `kindOfKeys_of_resolveField`: the kind that the keys make up together;
* **`kind_independent_of_key_order`**: properties, metadata and items.
-/

namespace BuildVocabulary

open Json (Location Members)
open FieldKey (lookup_type lookup_values)

/-! ## Results up to the order of reports -/

namespace Resolve

variable {α β : Type} {r r' : Resolve α} {fs gs : List Finding}

/-- Both parts fail, or both give the same value and report the same in some order. -/
inductive Shuffled : Resolve α → Resolve α → Prop where
  | ok {a : α} {fs gs : List Finding} (h : fs.Perm gs) : Shuffled (.ok a fs) (.ok a gs)
  | fail (e e' : LoadError) : Shuffled (.fail e) (.fail e')

/-- Parts that are accepted alike need only be compared where both give a value. -/
theorem Shuffled.of_accepted (haccepted : r.Accepted ↔ r'.Accepted)
    (hok : ∀ a b fs gs, r = .ok a fs → r' = .ok b gs → a = b ∧ fs.Perm gs) : r.Shuffled r' := by
  cases r with
  | ok a fs =>
    obtain ⟨b, hb⟩ := haccepted.mp accepted_ok
    obtain ⟨gs, rfl⟩ := hb.exists_eq_ok
    obtain ⟨rfl, hperm⟩ := hok a b fs gs rfl rfl
    exact .ok hperm
  | fail e =>
    cases r' with
    | ok b gs => exact absurd (haccepted.mpr accepted_ok) not_accepted_fail
    | fail e' => exact .fail e e'

theorem Shuffled.after_self (r : Resolve α) (h : fs.Perm gs) :
    (r.after fs).Shuffled (r.after gs) := by
  cases r with
  | ok a hs => exact .ok (h.append_right hs)
  | fail e => exact .fail e e

theorem Shuffled.bind (h : r.Shuffled r') (f : α → Resolve β) : (r >>= f).Shuffled (r' >>= f) := by
  cases h with
  | ok h => exact .after_self _ h
  | fail e e' => exact .fail e e'

end Resolve

/-! ## Members in another order -/

section Fields

variable {registry : Registry} {role : Role} {name : String} {here : Location} {ms ms' : Members}

theorem fieldShape_perm (h : ms.Perm ms') :
    (Json.object ms).FieldShape role ↔ (Json.object ms').FieldShape role :=
  ⟨fun hms e he => hms e (h.mem_iff.mpr he), fun hms' e he => hms' e (h.mem_iff.mp he)⟩

theorem shuffled_resolveField (hkeys : ms.keys.Nodup) (hone : ¬ WritesTwoTypes ms)
    (h : ms.Perm ms') :
    (resolveField registry role name here ms).Shuffled
      (resolveField registry role name here ms') := by
  have hkeys' : ms'.keys.Nodup := (h.map Prod.fst).nodup_iff.mp hkeys
  have hone' : ¬ WritesTwoTypes ms' := fun h' => hone (h'.mono h.symm.subset)
  refine .of_accepted ?_ fun f g fs gs hms hms' => ?_
  · rw [accepted_resolveField, accepted_resolveField, fieldShape_perm h]
  · obtain ⟨rfl, rfl⟩ := resolveField_eq_ok hkeys hone hms
    obtain ⟨rfl, rfl⟩ := resolveField_eq_ok hkeys' hone' hms'
    have hsame : Field.ofMembers registry role here ms = Field.ofMembers registry role here ms' :=
      Field.ofMembers_congr fun _ => said_perm hkeys h
    rw [hsame]
    exact ⟨rfl, (h.flatMap_right _).append_right _⟩

theorem shuffled_resolveProperty (hkeys : ms.keys.Nodup) (hone : ¬ WritesTwoTypes ms)
    (h : ms.Perm ms') :
    (resolveProperty registry here name (.object ms)).Shuffled
      (resolveProperty registry here name (.object ms')) :=
  (shuffled_resolveField hkeys hone h).bind _

theorem shuffled_resolveMetadata (hkeys : ms.keys.Nodup) (hone : ¬ WritesTwoTypes ms)
    (h : ms.Perm ms') (item : String) :
    (resolveMetadata registry item here name (.object ms)).Shuffled
      (resolveMetadata registry item here name (.object ms')) :=
  (shuffled_resolveField hkeys hone h).bind _

theorem shuffled_resolveItem (hkeys : ms.keys.Nodup) (hone : ¬ WritesTwoTypes ms)
    (h : ms.Perm ms') :
    (resolveItem registry here name (.object ms)).Shuffled
      (resolveItem registry here name (.object ms')) := by
  unfold resolveItem
  rw [Json.requireObject, Json.requireObject, Resolve.lift_ok_bind, Resolve.lift_ok_bind]
  exact (shuffled_resolveField hkeys hone h).bind _

end Fields

/-! ## The kind that the keys make up -/

/-- The kind and the custom type of a field whose token and separators stand for the kind `k` and
name a custom type, or none, while another may be written out in place. The last place counts the
warnings that the one in place is ignored. -/
inductive KindRule (k : Kind) (named : Option CustomType) :
    Option CustomType → Kind → Option CustomType → ℕ → Prop where
  | plain : KindRule k named none k named 0
  | ignored {t : CustomType} (hk : k.modifiers.customType = true) :
    KindRule k named (some t) k named 1
  | upgraded {t : CustomType} (hk : k.modifiers.customType = false) (hbase : k.base = .unknown)
      (hvalues : t.values ≠ []) :
    KindRule k named (some t) ⟨.customType, { k.modifiers with customType := true }⟩ (some t) 0
  | attached {t : CustomType} (hk : k.modifiers.customType = false)
      (hknown : k.base ≠ .unknown ∨ t.values = []) :
    KindRule k named (some t) k (some t) 0

/-- The kind with the modifiers of list separators, which items have not: values may be lists if a
semicolon is among the separators, and comma lists if a comma is. -/
def separatedBy (role : Role) (separators : Option Json) (k : Kind) : Kind :=
  match role, separators with
  | .item, _ => k
  | _, some (.text s) =>
    { k with modifiers :=
      { k.modifiers with
        list := k.modifiers.list || decide (';' ∈ s.toList)
        commaList := k.modifiers.commaList || decide (',' ∈ s.toList) } }
  | _, _ => k

/-- The kind, the custom type and the number of warnings follow from `type`, `values` and
`listSeparators`. -/
def KindOfKeys (registry : Registry) (role : Role) (here : Location) (ms : Members) (kind : Kind)
    (type : Option CustomType) (ignored : ℕ) : Prop :=
  ∃ declared fs inPlace gs,
    tokenPart registry here (ms.find? "type") = .ok declared fs ∧
    inlinePart here (ms.find? "type") (ms.find? "values") = .ok inPlace gs ∧
    KindRule (separatedBy role (ms.find? "listSeparators") declared.kind) declared.customType
      inPlace kind type ignored

section Kinds

variable {registry : Registry} {role : Role} {name : String} {here : Location} {ms ms' : Members}
  {f : Field} {fs : List Finding}

theorem ofCustomType_adding (m : Modifiers) :
    Kind.ofCustomType.adding m = ⟨.customType, { m with customType := true }⟩ := by
  simp [Kind.adding, Kind.ofCustomType, Modifiers.union]

theorem adding_ofSeparators (k : Kind) (s : String) :
    k.adding (.ofSeparators s) =
      { k with modifiers :=
        { k.modifiers with
          list := k.modifiers.list || decide (';' ∈ s.toList)
          commaList := k.modifiers.commaList || decide (',' ∈ s.toList) } } := by
  simp only [Kind.adding, Modifiers.union, Modifiers.list_ofSeparators,
    Modifiers.commaList_ofSeparators, Modifiers.literal_ofSeparators,
    Modifiers.customType_ofSeparators, Bool.or_false]

/-- What the keys mean together follows the rule. -/
theorem kindRule_resolved (f : Field) :
    KindRule f.separatedKind f.declared.customType f.inlineType f.resolved.kind
      f.resolved.customType (if f.ignoresInline then 1 else 0) := by
  unfold Field.resolved Field.ignoresInline
  cases f.inlineType with
  | none => exact .plain
  | some t =>
    by_cases hcustom : f.separatedKind.modifiers.customType = true
    · simp only [hcustom, Option.isSome_some, Bool.and_self, if_true]
      exact .ignored hcustom
    · rw [Bool.not_eq_true] at hcustom
      by_cases hupgrade : f.separatedKind.base = .unknown ∧ t.values ≠ []
      · have hopen : (f.separatedKind.isUnknown && !t.values.isEmpty) = true := by
          simp [Kind.isUnknown, hupgrade]
        simp only [hcustom, hopen, Bool.and_false, Bool.false_eq_true, if_false, if_true,
          ofCustomType_adding]
        exact .upgraded hcustom hupgrade.1 hupgrade.2
      · have hclosed : (f.separatedKind.isUnknown && !t.values.isEmpty) = false := by
          simpa [Kind.isUnknown] using hupgrade
        simp only [hcustom, hclosed, Bool.and_false, Bool.false_eq_true, if_false]
        rw [not_and_or, not_not] at hupgrade
        exact .attached hcustom hupgrade

theorem said_listSeparators_item : said .item ms .listSeparators = none :=
  said_eq_none_of_unknown fun _ hkey => FieldKey.ne_listSeparators_of_lookup_item hkey rfl

theorem separatedKind_ofMembers :
    (Field.ofMembers registry role here ms).separatedKind =
      separatedBy role (ms.find? "listSeparators")
        (Field.ofMembers registry role here ms).declared.kind := by
  have hseparators : role ≠ .item →
      said role ms .listSeparators = ms.find? "listSeparators" := fun hrole =>
    said_eq_find? (by cases role <;> first | rfl | exact absurd rfl hrole)
  unfold Field.separatedKind separatedBy
  by_cases hrole : role = .item
  · subst hrole
    have hnone : (Field.ofMembers registry .item here ms).separators = none := by
      rw [Field.ofMembers, said_listSeparators_item, Option.bind_none]
    rw [hnone]
  · have hsaid : (Field.ofMembers registry role here ms).separators =
        (ms.find? "listSeparators").bind Json.text? := by
      rw [Field.ofMembers, hseparators hrole]
    rw [hsaid]
    rcases ms.find? "listSeparators" with _ | _ | _ | _ | s | _ | _ <;> cases role <;>
      first | rfl | exact absurd rfl hrole | exact adding_ofSeparators _ s

theorem accepted_tokenPart {u : Option Json} : (tokenPart registry here u).Accepted := by
  unfold tokenPart
  split
  · exact accepted_resolveToken
  · exact Resolve.accepted_pure

theorem accepted_map_some {r : Resolve CustomType} (h : r.Accepted) : (some <$> r).Accepted := by
  obtain ⟨t, ht⟩ := h
  obtain ⟨fs, rfl⟩ := ht.exists_eq_ok
  exact Resolve.map_ok some t fs ▸ Resolve.accepted_ok

/-- In a field that is well formed, so is the custom type that is written out in place. -/
theorem accepted_inlinePart (h : (Json.object ms).FieldShape role) :
    (inlinePart here (ms.find? "type") (ms.find? "values")).Accepted := by
  have hfits : ∀ key k v, (FieldKey.table role).lookup key = some k → ms.find? key = some v →
      k.Fits v := by
    intro key k v hk hv
    have hcomment : isComment key = false := by
      by_contra hc
      rw [lookup_table_of_isComment (Bool.not_eq_false _ ▸ hc)] at hk
      cases hk
    exact fieldMember_iff.mp (h _ (mem_of_lookup hv) hcomment) k hk
  by_cases hnested : ∃ v, ms.find? "type" = some v ∧ v.IsNested
  · obtain ⟨v, hv, hnested⟩ := hnested
    have hshape : v.TypeShape := by
      refine (hfits _ _ _ lookup_type hv).resolve_left fun hstring => ?_
      rcases hnested with hv | hv <;> rw [hstring] at hv <;> cases hv
    rw [hv, inlinePart_nested hnested]
    exact accepted_map_some (accepted_resolveType.mpr hshape)
  · have hflat : ∀ v, ms.find? "type" = some v → ¬ v.IsNested := fun v hv hn => hnested ⟨v, hv, hn⟩
    cases hw : ms.find? "values" with
    | none =>
      rw [inlinePart_eq_none hflat]
      exact Resolve.accepted_pure
    | some w =>
      have hshape : w.TypeShape := hfits _ _ _ lookup_values hw
      rw [inlinePart_values hflat]
      exact accepted_map_some (accepted_resolveType.mpr hshape)

/-- **The kind of a field follows from its keys.** -/
theorem kindOfKeys_of_resolveField (hkeys : ms.keys.Nodup) (hone : ¬ WritesTwoTypes ms)
    (h : resolveField registry role name here ms = .ok f fs) :
    KindOfKeys registry role here ms f.resolved.kind f.resolved.customType
      (if f.ignoresInline then 1 else 0) := by
  have hshape : (Json.object ms).FieldShape role :=
    accepted_resolveField.mp (h ▸ Resolve.accepted_ok)
  have htoken : (tokenPart registry here (ms.find? "type")).Accepted := accepted_tokenPart
  have hinline : (inlinePart here (ms.find? "type") (ms.find? "values")).Accepted :=
    accepted_inlinePart hshape
  obtain ⟨declared, gs, htoken⟩ := htoken.imp fun _ h => h.exists_eq_ok
  obtain ⟨inPlace, hs, hinline⟩ := hinline.imp fun _ h => h.exists_eq_ok
  obtain ⟨rfl, -⟩ := resolveField_eq_ok hkeys hone h
  have hrule := kindRule_resolved (Field.ofMembers registry role here ms)
  have hdeclared : (Field.ofMembers registry role here ms).declared = declared := by
    rw [Field.ofMembers, said_eq_find? lookup_type, htoken, Resolve.valueD]
  have hinPlace : (Field.ofMembers registry role here ms).inlineType = inPlace := by
    rw [Field.ofMembers, said_eq_find? lookup_type, said_eq_find? lookup_values, hinline,
      Resolve.valueD]
  rw [separatedKind_ofMembers, hdeclared, hinPlace] at hrule
  exact ⟨declared, gs, inPlace, hs, htoken, hinline, hrule⟩

/-! ## Warnings about ignored types -/

theorem not_ignored_of_mem_memberReports {e : String × Json} {g : Finding}
    (hg : g ∈ memberReports registry role name here e) : g ≠ .inlineTypeIgnored role name := by
  rintro rfl
  have hadd : (Field.add registry role name here {} e).ReportsOnly
      fun g => g.OfType ∨ g = .unknownFieldKey e.1 role name := ofType_or_unknown_add
  unfold memberReports at hg
  cases hr : Field.add registry role name here {} e with
  | ok f fs =>
    rw [hr] at hadd hg
    rcases hadd _ hg with hno | hno <;> cases hno
  | fail e =>
    rw [hr] at hg
    cases hg

/-- A field warns once where it ignores a custom type that is written out in place. -/
theorem count_ignored_of_resolveField (hkeys : ms.keys.Nodup) (hone : ¬ WritesTwoTypes ms)
    (h : resolveField registry role name here ms = .ok f fs) :
    fs.count (.inlineTypeIgnored role name) = if f.ignoresInline then 1 else 0 := by
  obtain ⟨-, rfl⟩ := resolveField_eq_ok hkeys hone h
  have hmembers : (ms.flatMap (memberReports registry role name here)).count
      (.inlineTypeIgnored role name) = 0 := by
    refine List.count_eq_zero.mpr fun hmem => ?_
    obtain ⟨e, -, he⟩ := List.mem_flatMap.mp hmem
    exact not_ignored_of_mem_memberReports he rfl
  rw [List.count_append, hmembers, Nat.zero_add]
  unfold Field.closingFindings
  split_ifs <;> simp

/-- What the metadata inside an item reports is not about items. -/
theorem not_ignored_of_resolveItemMetadata {v : Option Json} :
    (resolveItemMetadata registry name here v).ReportsOnly (· ≠ .inlineTypeIgnored .item name) := by
  unfold resolveItemMetadata
  split
  · exact .pure _
  · refine .resolveSection (fun again => Finding.noConfusion) fun key v => ?_
    refine ofField_resolveMetadata.mono fun g hg => ?_
    rintro rfl
    cases hg.1

/-! ## Entries -/

theorem kindOfKeys_of_resolveProperty (hkeys : ms.keys.Nodup) (hone : ¬ WritesTwoTypes ms)
    {p : Property} (h : resolveProperty registry here name (.object ms) = .ok p fs) :
    KindOfKeys registry .property here ms p.kind p.customType
      (fs.count (.inlineTypeIgnored .property name)) := by
  rw [resolveProperty, Resolve.bind_eq_ok_iff] at h
  obtain ⟨f, gs, _, hf, ⟨⟩, rfl⟩ := h
  rw [List.append_nil, count_ignored_of_resolveField hkeys hone hf]
  exact kindOfKeys_of_resolveField hkeys hone hf

theorem kindOfKeys_of_resolveMetadata (hkeys : ms.keys.Nodup) (hone : ¬ WritesTwoTypes ms)
    {item : String} {d : Metadata}
    (h : resolveMetadata registry item here name (.object ms) = .ok d fs) :
    KindOfKeys registry .metadata here ms d.kind d.customType
      (fs.count (.inlineTypeIgnored .metadata name)) := by
  rw [resolveMetadata, Resolve.bind_eq_ok_iff] at h
  obtain ⟨f, gs, _, hf, ⟨⟩, rfl⟩ := h
  rw [List.append_nil, count_ignored_of_resolveField hkeys hone hf]
  exact kindOfKeys_of_resolveField hkeys hone hf

theorem kindOfKeys_of_resolveItem (hkeys : ms.keys.Nodup) (hone : ¬ WritesTwoTypes ms)
    {i : Item} (h : resolveItem registry here name (.object ms) = .ok i fs) :
    KindOfKeys registry .item here ms i.kind i.customType
      (fs.count (.inlineTypeIgnored .item name)) := by
  unfold resolveItem at h
  rw [Json.requireObject, Resolve.lift_ok_bind] at h
  simp only [Resolve.bind_eq_ok_iff] at h
  obtain ⟨f, gs, _, hf, ⟨_, hs, _, ⟨⟩, ⟨metadata, ks, _, hmetadata, ⟨⟩, rfl⟩, rfl⟩, rfl⟩ := h
  have hmetadataCount : ks.count (.inlineTypeIgnored .item name) = 0 := by
    refine List.count_eq_zero.mpr fun hmem => ?_
    exact not_ignored_of_resolveItemMetadata.forall_mem hmetadata _ hmem rfl
  have hcount : (if f.resolved.kind.modifiers.customType then
      [Finding.itemCustomType name] else []).count (.inlineTypeIgnored .item name) = 0 := by
    split_ifs <;> simp
  rw [List.append_nil, List.count_append, List.count_append, hcount, hmetadataCount,
    count_ignored_of_resolveField hkeys hone hf]
  exact kindOfKeys_of_resolveField hkeys hone hf

end Kinds

/-! ## All entries -/

/-- Entries are the same for both lists of members, and their kinds follow from the keys. -/
structure KindsFromKeys (registry : Registry) (here : Location) (name owner : String)
    (ms ms' : Members) : Prop where
  property : (resolveProperty registry here name (.object ms)).Shuffled
    (resolveProperty registry here name (.object ms'))
  metadata : (resolveMetadata registry owner here name (.object ms)).Shuffled
    (resolveMetadata registry owner here name (.object ms'))
  item : (resolveItem registry here name (.object ms)).Shuffled
    (resolveItem registry here name (.object ms'))
  propertyKind : ∀ p fs, resolveProperty registry here name (.object ms) = .ok p fs →
    KindOfKeys registry .property here ms p.kind p.customType
      (fs.count (.inlineTypeIgnored .property name))
  metadataKind : ∀ d fs, resolveMetadata registry owner here name (.object ms) = .ok d fs →
    KindOfKeys registry .metadata here ms d.kind d.customType
      (fs.count (.inlineTypeIgnored .metadata name))
  itemKind : ∀ i fs, resolveItem registry here name (.object ms) = .ok i fs →
    KindOfKeys registry .item here ms i.kind i.customType
      (fs.count (.inlineTypeIgnored .item name))

/-- **The kind of a field does not depend on the order of its keys.** Unless a custom type is
written out both under `type` and under `values`, both orders fail, or they give the same entry and
report the same in some order. Its kind follows from its type token, its list separators and the
custom type that is written out in place. -/
theorem kind_independent_of_key_order {ms ms' : Members} (hkeys : ms.keys.Nodup)
    (hone : ¬ WritesTwoTypes ms) (h : ms.Perm ms') (registry : Registry) (here : Location)
    (name owner : String) : KindsFromKeys registry here name owner ms ms' where
  property := shuffled_resolveProperty hkeys hone h
  metadata := shuffled_resolveMetadata hkeys hone h owner
  item := shuffled_resolveItem hkeys hone h
  propertyKind _ _ := kindOfKeys_of_resolveProperty hkeys hone
  metadataKind _ _ := kindOfKeys_of_resolveMetadata hkeys hone
  itemKind _ _ := kindOfKeys_of_resolveItem hkeys hone

/-- A custom type that is named, and values that are ignored for it. -/
def tintMembers : Members := [
  ("listSeparators", .text ",;"),
  ("values", .array [.text "Red", .text "Blue"]),
  ("colour", .null),
  ("type", .text "@Color-list"),
  ("deprecated", .bool true),
  ("description", .text "The tint")]

theorem kind_independent_of_key_order_tint : tintMembers.keys.Nodup ∧
    ¬ WritesTwoTypes tintMembers ∧ tintMembers.Perm tintMembers.reverse ∧
    KindsFromKeys (NameMap.empty.insert "Color" ⟨some "Color", [⟨"Red", none⟩], false⟩)
      [] "Tint" "Compile" tintMembers tintMembers.reverse := by
  have hkeys : tintMembers.keys.Nodup := by decide
  have hone : ¬ WritesTwoTypes tintMembers := by
    rintro ⟨⟨v, hv, hnested⟩, -⟩
    have hlookup := (lookup_eq_some_iff_mem hkeys).mpr hv
    cases hlookup
    rcases hnested with hnested | hnested <;> cases hnested
  have hperm : tintMembers.Perm tintMembers.reverse := tintMembers.reverse_perm.symm
  exact ⟨hkeys, hone, hperm, kind_independent_of_key_order hkeys hone hperm _ _ _ _⟩

end BuildVocabulary

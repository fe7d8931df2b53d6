import BuildVocabulary.Proofs.Load.Acceptance

/-!
# Where loading fails

An error about a shape tells the location of the value that has it, and an error about a name is
about a name that stands in the document. Each part of a document is resolved together with its
location; so it is enough that both belong together wherever a part is handed on.

* `Json.Leads`: the values of a document with their locations;
* `TypePlace`: where custom types are defined;
* `PointsInto`: the error comes from something that stands in the document;
* `pointsInto_resolveType`, `pointsInto_resolveField`, `pointsInto_applyGroup`: parts of a document;
* **`load_error_points_at_value`**: whole documents.
-/

namespace BuildVocabulary

open Json (Location Members Shape)
open Resolve (FailsOnly)

/-! ## Places in a document -/

/-- A location leads from the root of a document to a value. A key that is repeated leads to each
of its values. -/
inductive Json.Leads (doc : Json) : Location → Json → Prop where
  | root : doc.Leads [] doc
  | key {here : Location} {ms : Members} {k : String} {v : Json}
      (h : doc.Leads here (.object ms)) (hm : (k, v) ∈ ms) : doc.Leads (here.key k) v
  | index {here : Location} {vs : List Json} {i : ℕ} {v : Json}
      (h : doc.Leads here (.array vs)) (hv : vs[i]? = some v) : doc.Leads (here.index i) v

/-- No object of a document repeats a key. -/
def Json.KeysDistinct (doc : Json) : Prop :=
  ∀ here ms, doc.Leads here (.object ms) → (Members.keys ms).Nodup

theorem Json.at?_singleton (s : Json.Step) (v : Json) : v.at? [s] = Json.step? s v := by
  rw [at?, List.foldlM_cons]
  exact bind_pure _

/-- Where no key is repeated, a location leads to one value. -/
theorem Json.Leads.at?_eq {doc v : Json} {here : Location} (h : doc.Leads here v)
    (hdoc : doc.KeysDistinct) : doc.at? here = some v := by
  induction h with
  | root => rfl
  | key h hm ih =>
    rw [Location.key, at?_append, ih, Option.bind_some, at?_singleton]
    exact (lookup_eq_some_iff_mem (hdoc _ _ h)).mpr hm
  | index h hv ih =>
    rw [Location.index, at?_append, ih, Option.bind_some, at?_singleton]
    exact hv

/-- A location below the root leads to a value. -/
structure Json.Holds (doc : Json) (here : Location) (v : Json) : Prop where
  below : here ≠ []
  leads : doc.Leads here v

namespace Json.Holds

variable {doc v : Json} {here : Location} {ms : Members} {vs : List Json} {k : String} {i : ℕ}

theorem member (h : (k, v) ∈ ms) : (Json.object ms).Holds [.key k] v :=
  ⟨List.cons_ne_nil _ _, Leads.root.key h⟩

theorem key (h : doc.Holds here (.object ms)) (hm : (k, v) ∈ ms) : doc.Holds (here.key k) v :=
  ⟨by simp [Location.key], h.leads.key hm⟩

theorem index (h : doc.Holds here (.array vs)) (hv : vs[i]? = some v) :
    doc.Holds (here.index i) v :=
  ⟨by simp [Location.index], h.leads.index hv⟩

end Json.Holds

/-- Where a field is described: under a name in a section, inside an item, or in a group. Comments
describe nothing, and directives of a group do not either. -/
inductive FieldPlace : Location → Prop where
  | property {name : String} (hc : isComment name = false) :
      FieldPlace [.key SectionKey.properties, .key name]
  | item {name : String} (hc : isComment name = false) :
      FieldPlace [.key SectionKey.items, .key name]
  | metadata {item name : String} (hi : isComment item = false) (hc : isComment name = false) :
      FieldPlace [.key SectionKey.items, .key item, .key "metadata", .key name]
  | group {i : ℕ} {name : String} (hc : isComment name = false) (hd : isDirective name = false) :
      FieldPlace [.key SectionKey.groups, .index i, .key name]

/-- Where a custom type is defined: under its name, or in place of the type or the values of a
field. -/
inductive TypePlace : Location → Prop where
  | named {name : String} (hc : isComment name = false) :
      TypePlace [.key SectionKey.customTypes, .key name]
  | type {here : Location} (h : FieldPlace here) : TypePlace (here.key "type")
  | values {here : Location} (h : FieldPlace here) : TypePlace (here.key "values")

/-! ## Errors -/

/-- The error comes from something that stands in the document: a value of a shape that is not
expected where it stands, or a name that breaks the rule. -/
inductive PointsInto (doc : Json) : LoadError → Prop where
  | shape {here : Location} {v : Json} {expected : Expectation} (h : doc.Holds here v)
      (hv : v.shape ∉ expected.shapes) : PointsInto doc (.unexpectedShape here expected v.shape)
  | key {name : String} {v : Json} (h : doc.Holds [.key SectionKey.customTypes, .key name] v)
      (hc : isComment name = false) (hn : isTypeName name = false) :
      PointsInto doc (.invalidTypeName name)
  | directive {there : Location} {ms : Members} {name : String} (hp : TypePlace there)
      (h : doc.Holds there (.object ms)) (hm : ("$name", .text name) ∈ ms)
      (hn : isTypeName name = false) : PointsInto doc (.invalidTypeName name)

/-- What a phrase names is expected. -/
theorem mem_shapes_of_phrase {x : Expectation} {s : Shape}
    (h : s.phrase.toList <:+: x.phrase.toList) : s ∈ x.shapes := by
  revert h
  cases x <;> cases s <;> decide +kernel

/-! ## Required shapes -/

namespace Json

/-- The function gives a value what an expectation asks for, or fails with what it found. -/
def AsksFor {α : Type} (expected : Expectation) (here : Location)
    (f : Json → Except LoadError α) : Prop :=
  ∀ v e, f v = .error e → e = unexpected here expected v ∧ v.shape ∉ expected.shapes

variable {here : Location}

theorem asksFor_requireObject : AsksFor .object here (requireObject here) := by
  intro v e h
  cases v <;> cases h <;> exact ⟨rfl, by simp [shape, Expectation.shapes]⟩

theorem asksFor_requireArray : AsksFor .array here (requireArray here) := by
  intro v e h
  cases v <;> cases h <;> exact ⟨rfl, by simp [shape, Expectation.shapes]⟩

theorem asksFor_requireText : AsksFor .string here (requireText here) := by
  intro v e h
  cases v <;> cases h <;> exact ⟨rfl, by simp [shape, Expectation.shapes]⟩

theorem asksFor_requireBool : AsksFor .boolean here (requireBool here) := by
  intro v e h
  cases v <;> cases h <;> exact ⟨rfl, by simp [shape, Expectation.shapes]⟩

theorem asksFor_requireText? : AsksFor .stringOrNull here (requireText? here) := by
  intro v e h
  cases v <;> cases h <;> exact ⟨rfl, by simp [shape, Expectation.shapes]⟩

theorem asksFor_requireScalar? : AsksFor .scalar here (requireScalar? here) := by
  intro v e h
  cases v <;> cases h <;> exact ⟨rfl, by simp [shape, Expectation.shapes]⟩

/-- A list of texts fails with the first element that is none. -/
theorem exists_of_requireTexts {i : ℕ} {vs : List Json} {e : LoadError}
    (h : requireTexts here i vs = .error e) :
    ∃ j w, vs[j]? = some w ∧ e = unexpected (here.index (i + j)) .string w ∧
      w.shape ∉ Expectation.string.shapes := by
  induction vs generalizing i with
  | nil => cases h
  | cons v vs ih =>
    rw [requireTexts] at h
    cases hv : requireText (here.index i) v with
    | error d =>
      rw [hv] at h
      cases h
      exact ⟨0, v, rfl, asksFor_requireText v e hv⟩
    | ok s =>
      rw [hv] at h
      cases hvs : requireTexts here (i + 1) vs with
      | error d =>
        rw [hvs] at h
        cases h
        obtain ⟨j, w, hw, he⟩ := ih hvs
        refine ⟨j + 1, w, hw, ?_⟩
        rwa [Nat.add_right_comm] at he
      | ok ss =>
        rw [hvs] at h
        cases h

end Json

variable {doc v : Json} {here : Location}

/-- A part that asks for a shape at the location of a value. -/
theorem pointsInto_require {α β : Type} {x : Expectation} {f : Json → Except LoadError α}
    {g : α → Resolve β} (hf : Json.AsksFor x here f) (h : doc.Holds here v)
    (hg : ∀ a, f v = .ok a → (g a).FailsOnly (PointsInto doc)) :
    (liftM (f v) >>= g : Resolve β).FailsOnly (PointsInto doc) := by
  refine .lift_bind (fun e he => ?_) hg
  obtain ⟨rfl, hv⟩ := hf v e he
  exact .shape h hv

theorem pointsInto_requireTexts {vs : List Json} {e : LoadError} (h : doc.Holds here (.array vs))
    (he : Json.requireTexts here 0 vs = .error e) : PointsInto doc e := by
  obtain ⟨j, w, hw, rfl, hshape⟩ := Json.exists_of_requireTexts he
  rw [Nat.zero_add]
  exact .shape (h.index hw) hshape

theorem pointsInto_requireStrings {e : LoadError} (h : doc.Holds here v)
    (he : Json.requireStrings here v = .error e) : PointsInto doc e := by
  cases v with
  | text s => cases he
  | array vs => exact pointsInto_requireTexts h he
  | _ =>
    cases he
    exact .shape h (by simp [Json.shape, Expectation.shapes])

/-! ## Custom types -/

theorem invalid_of_requireTypeName {name : String} {e : LoadError}
    (h : requireTypeName name = .error e) :
    e = .invalidTypeName name ∧ isTypeName name = false := by
  unfold requireTypeName at h
  split_ifs at h with hn
  cases h
  exact ⟨rfl, Bool.not_eq_true _ ▸ hn⟩

theorem pointsInto_addMember {registered : Option String} {t : CustomType} {ms : Members}
    {m : String × Json} (hp : TypePlace here) (h : doc.Holds here (.object ms)) (hm : m ∈ ms) :
    (t.addMember registered here m).FailsOnly (PointsInto doc) := by
  have hmember : doc.Holds (here.key m.1) m.2 := h.key hm
  unfold CustomType.addMember
  split_ifs with hname
  · refine pointsInto_require Json.asksFor_requireText hmember fun name hv => ?_
    refine .lift_bind (fun e he => ?_) fun _ _ => ?_
    · obtain ⟨rfl, hn⟩ := invalid_of_requireTypeName he
      have hentry : ("$name", .text name) = m :=
        Prod.ext hname.symm (Json.requireText_eq_ok.mp hv).symm
      exact .directive hp h (hentry ▸ hm) hn
    · split <;> trivial
  · exact pointsInto_require Json.asksFor_requireBool hmember fun _ _ => .pure _
  · exact .pure _
  · trivial
  · exact pointsInto_require Json.asksFor_requireText? hmember fun _ _ =>
      .of_accepted accepted_addValue

theorem pointsInto_addItems {t : CustomType} {vs : List Json} {i : ℕ}
    (h : ∀ j w, vs[j]? = some w → doc.Holds (here.index (i + j)) w) :
    (t.addItems here i vs).FailsOnly (PointsInto doc) := by
  induction vs generalizing t i with
  | nil => exact .pure _
  | cons v vs ih =>
    rw [CustomType.addItems]
    refine pointsInto_require Json.asksFor_requireText (h 0 v rfl) fun _ _ => ?_
    refine .bind (.of_accepted accepted_addValue) fun _ _ => ih fun j w hw => ?_
    rw [Nat.add_right_comm]
    exact h (j + 1) w hw

theorem pointsInto_resolveType {registered : Option String} (hp : TypePlace here)
    (h : doc.Holds here v) : (resolveType registered here v).FailsOnly (PointsInto doc) := by
  cases v with
  | object ms =>
    exact .bind (.foldlM (fun _ _ hm => pointsInto_addMember hp h hm) _) fun _ _ => trivial
  | array vs =>
    refine .bind (pointsInto_addItems fun j w hw => ?_) fun _ _ => trivial
    rw [Nat.zero_add]
    exact h.index hw
  | _ => exact .shape h (by simp [Json.shape, Expectation.shapes])

/-- A section fails where one of its members does. -/
theorem pointsInto_resolveSection {α : Type} {again : String → Finding}
    {resolve : Location → String → Json → Resolve α} (h : doc.Holds here v)
    (hr : ∀ name w, isComment name = false → doc.Holds (here.key name) w →
      (resolve (here.key name) name w).FailsOnly (PointsInto doc)) :
    (resolveSection again resolve here v).FailsOnly (PointsInto doc) := by
  refine pointsInto_require Json.asksFor_requireObject h fun ms hms => ?_
  rw [Json.requireObject_eq_ok.mp hms] at h
  refine .foldlM (fun m e he => ?_) _
  unfold declare
  split_ifs with hc
  · exact .pure _
  · refine .bind (hr e.1 e.2 (Bool.not_eq_true _ ▸ hc) (h.key he)) fun _ _ => ?_
    exact .bind (.of_accepted Resolve.accepted_ok) fun _ _ => .pure _

theorem pointsInto_resolveRegistry (h : doc.Holds [.key SectionKey.customTypes] v) :
    (resolveRegistry [.key SectionKey.customTypes] v).FailsOnly (PointsInto doc) := by
  refine pointsInto_resolveSection h fun name w hc hw => ?_
  refine .lift_bind (fun e he => ?_) fun _ _ => pointsInto_resolveType (.named hc) hw
  obtain ⟨rfl, hn⟩ := invalid_of_requireTypeName he
  exact .key hw hc hn

/-! ## Fields -/

section Fields

variable {registry : Registry} {name : String} {ms : Members}

theorem pointsInto_putInline {f : Field} (hp : TypePlace here) (h : doc.Holds here v) :
    (f.putInline here v).FailsOnly (PointsInto doc) :=
  .bind (pointsInto_resolveType hp h) fun _ _ => .of_accepted Resolve.accepted_ok

theorem pointsInto_put {f : Field} {k : FieldKey} (h : doc.Holds here v)
    (hp : k = .type ∨ k = .values → TypePlace here) :
    (f.put registry here v k).FailsOnly (PointsInto doc) := by
  cases k with
  | type =>
    cases v with
    | text token => exact .bind (.of_accepted accepted_resolveToken) fun _ _ => .pure _
    | object | array => exact pointsInto_putInline (hp (.inl rfl)) h
    | _ => exact .shape h (by simp [Json.shape, Expectation.shapes])
  | values => exact pointsInto_putInline (hp (.inr rfl)) h
  | metadata => exact .pure _
  | listSeparators => exact pointsInto_require Json.asksFor_requireText h fun _ _ => .pure _
  | defaultValue => exact pointsInto_require Json.asksFor_requireScalar? h fun _ _ => .pure _
  | deprecated | required =>
    exact pointsInto_require Json.asksFor_requireBool h fun _ _ => .pure _
  | _ => exact pointsInto_require Json.asksFor_requireText? h fun _ _ => .pure _

theorem pointsInto_resolveField {role : Role} (hp : FieldPlace here)
    (h : doc.Holds here (.object ms)) :
    (resolveField registry role name here ms).FailsOnly (PointsInto doc) := by
  refine .bind (.foldlM (fun f e he => ?_) _) fun _ _ => trivial
  unfold Field.add
  split_ifs
  · exact .pure _
  · split
    next k hk =>
      -- custom types stand under two keys of a field
      refine pointsInto_put (h.key he) ?_
      rintro (rfl | rfl)
      · rw [FieldKey.key_unique hk FieldKey.lookup_type]
        exact .type hp
      · rw [FieldKey.key_unique hk FieldKey.lookup_values]
        exact .values hp
    · trivial

/-! ## Entries -/

theorem pointsInto_resolveProperty (hp : FieldPlace here) (h : doc.Holds here v) :
    (resolveProperty registry here name v).FailsOnly (PointsInto doc) := by
  cases v with
  | text s => exact .pure _
  | object ms => exact .bind (pointsInto_resolveField hp h) fun _ _ => .pure _
  | _ => exact .shape h (by simp [Json.shape, Expectation.shapes])

theorem pointsInto_resolveMetadata {item : String} (hp : FieldPlace here) (h : doc.Holds here v) :
    (resolveMetadata registry item here name v).FailsOnly (PointsInto doc) := by
  cases v with
  | text s => exact .pure _
  | object ms => exact .bind (pointsInto_resolveField hp h) fun _ _ => .pure _
  | _ => exact .shape h (by simp [Json.shape, Expectation.shapes])

theorem pointsInto_resolveItem (hc : isComment name = false)
    (h : doc.Holds [.key SectionKey.items, .key name] v) :
    (resolveItem registry [.key SectionKey.items, .key name] name v).FailsOnly
      (PointsInto doc) := by
  refine pointsInto_require Json.asksFor_requireObject h fun ms hms => ?_
  rw [Json.requireObject_eq_ok.mp hms] at h
  refine .bind (pointsInto_resolveField (.item hc) h) fun f hf => ?_
  refine .bind (.of_accepted Resolve.accepted_ok) fun _ _ => .bind ?_ fun _ _ => .pure _
  -- the metadata is the value of a member of the item
  cases hw : f.metadata with
  | none => exact .pure _
  | some w =>
    rw [metadata_of_resolveField hf, Members.last?, Members.find?] at hw
    have hmember : ("metadata", w) ∈ ms := List.mem_reverse.mp (mem_of_lookup hw)
    exact pointsInto_resolveSection (h.key hmember) fun key w hkey =>
      pointsInto_resolveMetadata (.metadata hc hkey)

theorem pointsInto_resolveTarget (h : doc.Holds here v) :
    (resolveTarget here name v).FailsOnly (PointsInto doc) := by
  cases v with
  | text s => exact .pure _
  | object ms =>
    refine .foldlM (fun t e he => ?_) _
    unfold Target.add
    split_ifs
    · exact pointsInto_require Json.asksFor_requireText? (h.key he) fun _ _ => .pure _
    · exact .pure _
    · trivial
  | _ => exact .shape h (by simp [Json.shape, Expectation.shapes])

/-! ## Metadata groups -/

theorem pointsInto_resolveDeclarations {owner : String} {i : ℕ}
    (h : ∀ e ∈ ms, doc.Holds [.key SectionKey.groups, .index i, .key e.1] e.2) :
    (resolveDeclarations registry owner [.key SectionKey.groups, .index i] ms).FailsOnly
      (PointsInto doc) := by
  induction ms with
  | nil => exact .pure _
  | cons e ms ih =>
    obtain ⟨he, hms⟩ := List.forall_mem_cons.mp h
    rw [resolveDeclarations]
    split_ifs with hskip hd
    · exact ih hms
    · exact .bind (.of_accepted Resolve.accepted_report) fun _ _ => ih hms
    · have hc : isComment e.1 = false := by simp_all
      have hd : isDirective e.1 = false := Bool.not_eq_true _ ▸ hd
      refine .bind (pointsInto_resolveMetadata (.group hc hd) he) fun _ _ => ?_
      exact .bind (ih hms) fun _ _ => .pure _

theorem pointsInto_applyGroup {items : NameMap Item} {i : ℕ}
    (h : doc.Holds [.key SectionKey.groups, .index i] v) :
    (applyGroup registry [.key SectionKey.groups, .index i] items v).FailsOnly
      (PointsInto doc) := by
  refine pointsInto_require Json.asksFor_requireObject h fun ms hms => ?_
  rw [Json.requireObject_eq_ok.mp hms] at h
  split
  · trivial
  next listed hlisted =>
    have hmember : doc.Holds _ listed := h.key (mem_of_lookup hlisted)
    refine .lift_bind (fun e he => pointsInto_requireStrings hmember he) fun names _ => ?_
    cases names with
    | nil => trivial
    | cons first names =>
      refine .bind (pointsInto_resolveDeclarations fun e he => h.key he) fun _ _ => ?_
      exact .of_accepted accepted_distribute

theorem pointsInto_applyGroups {items : NameMap Item} {vs : List Json} {i : ℕ}
    (h : ∀ j w, vs[j]? = some w → doc.Holds [.key SectionKey.groups, .index (i + j)] w) :
    (applyGroups registry [.key SectionKey.groups] i items vs).FailsOnly (PointsInto doc) := by
  induction vs generalizing items i with
  | nil => exact .pure _
  | cons v vs ih =>
    rw [applyGroups]
    refine .bind (pointsInto_applyGroup (h 0 v rfl)) fun _ _ => ih fun j w hw => ?_
    rw [Nat.add_right_comm]
    exact h (j + 1) w hw

end Fields

/-! ## Documents -/

theorem pointsInto_sectionOr {α : Type} {ms : Members} {key : String} {absent : α}
    {resolve : Location → Json → Resolve α}
    (h : ∀ v, (Json.object ms).Holds [.key key] v →
      (resolve [.key key] v).FailsOnly (PointsInto (.object ms))) :
    (sectionOr ms key absent resolve).FailsOnly (PointsInto (.object ms)) := by
  unfold sectionOr
  split
  next v hv => exact h v (.member (mem_of_lookup hv))
  · exact .pure _

theorem pointsInto_resolveImports (h : doc.Holds here v) :
    (resolveImports here v).FailsOnly (PointsInto doc) := by
  refine pointsInto_require Json.asksFor_requireArray h fun vs hvs => ?_
  rw [Json.requireArray_eq_ok.mp hvs] at h
  exact .lift fun e he => pointsInto_requireTexts h he

theorem pointsInto_resolveGroups {registry : Registry} {items : NameMap Item}
    (h : doc.Holds [.key SectionKey.groups] v) :
    (resolveGroups registry items [.key SectionKey.groups] v).FailsOnly (PointsInto doc) := by
  refine pointsInto_require Json.asksFor_requireArray h fun vs hvs => ?_
  rw [Json.requireArray_eq_ok.mp hvs] at h
  refine pointsInto_applyGroups fun j w hw => ?_
  rw [Nat.zero_add]
  exact h.index hw

theorem pointsInto_resolveMembers (ms : Members) :
    (resolveMembers ms).FailsOnly (PointsInto (.object ms)) := by
  refine .bind (.of_accepted Resolve.accepted_ok) fun _ _ => ?_
  refine .bind (pointsInto_sectionOr fun v => pointsInto_resolveImports) fun imports _ => ?_
  refine .bind (pointsInto_sectionOr fun v => pointsInto_resolveRegistry) fun registry _ => ?_
  refine .bind (pointsInto_sectionOr fun v hv => pointsInto_resolveSection hv fun name w hc =>
    pointsInto_resolveProperty (.property hc)) fun properties _ => ?_
  refine .bind (pointsInto_sectionOr fun v hv => pointsInto_resolveSection hv fun name w hc =>
    pointsInto_resolveItem hc) fun items _ => ?_
  refine .bind (pointsInto_sectionOr fun v => pointsInto_resolveGroups) fun items _ => ?_
  refine .bind (pointsInto_sectionOr fun v hv => pointsInto_resolveSection hv fun name w _ =>
    pointsInto_resolveTarget) fun targets _ => .pure _

theorem pointsInto_of_load {e : LoadError} (h : load doc = .error e) :
    PointsInto doc e ∨ ∃ found, e = .notAnObject found := by
  cases doc with
  | object ms =>
    have hfails := pointsInto_resolveMembers ms
    cases hr : resolveMembers ms with
    | ok m fs =>
      rw [load_eq, resolveDocument, hr] at h
      cases h
    | fail d =>
      rw [load_eq, resolveDocument, hr] at h
      cases h
      rw [hr] at hfails
      exact .inl hfails
  | _ =>
    cases h
    exact .inr ⟨_, rfl⟩

/-- **Errors tell where they come from.** An error about a shape gives the steps that lead to a
value of the shape that was found, and this shape is none of those that the error says are expected.
An error about a name is about a name that breaks the rule, and that is a key of the custom types or
given by a directive to a custom type. -/
theorem load_error_points_at_value (doc : Json) :
    (∀ here expected found, load doc = .error (.unexpectedShape here expected found) →
      ∃ steps v, steps ≠ [] ∧ "/".intercalate (steps.map Json.Step.text) = here.text ∧
        doc.Leads steps v ∧ (doc.KeysDistinct → doc.at? steps = some v) ∧ v.shape = found ∧
        found ∉ expected.shapes ∧ ¬ found.phrase.toList <:+: expected.phrase.toList) ∧
    ∀ name, load doc = .error (.invalidTypeName name) → isTypeName name = false ∧
      ((isComment name = false ∧ ∃ v, doc.Leads [.key SectionKey.customTypes, .key name] v) ∨
        ∃ there ms, TypePlace there ∧ doc.Leads there (.object ms) ∧
          ("$name", .text name) ∈ ms) := by
  refine ⟨fun here expected found h => ?_, fun name h => ?_⟩
  · rcases pointsInto_of_load h with hpoints | ⟨_, hroot⟩
    · cases hpoints with
      | shape hv hshape =>
        exact ⟨here, _, hv.below, rfl, hv.leads, hv.leads.at?_eq, rfl, hshape,
          fun hphrase => hshape (mem_shapes_of_phrase hphrase)⟩
    · cases hroot
  · rcases pointsInto_of_load h with hpoints | ⟨_, hroot⟩
    · cases hpoints with
      | key hv hc hn => exact ⟨hn, .inl ⟨hc, _, hv.leads⟩⟩
      | directive hp hv hm hn => exact ⟨hn, .inr ⟨_, _, hp, hv.leads, hm⟩⟩
    · cases hroot

/-- A document with a number among the values of a type, below keys that read like steps. -/
def numberedDocument : Json := .object [("items", .object [("a/b", .object [
  ("metadata", .object [("", .object [("type", .object [("X", .number (.whole 3))])])])])])]

/-- A document with a group whose second declaration defines a type of a wrong name. -/
def dashedDocument : Json := .object [("metadata", .array [
  .object [],
  .object [("$appliesTo", .text "Compile"), ("Link", .text "Path"),
    ("Tint", .object [("values", .object [("$name", .text "foo--bar")])])]])]

theorem load_error_points_at_value_nested :
    (load numberedDocument = .error (.unexpectedShape
        [.key "items", .key "a/b", .key "metadata", .key "", .key "type", .key "X"]
        .stringOrNull .number) ∧
      ∃ steps v, steps ≠ [] ∧
        "/".intercalate (steps.map Json.Step.text) = "items/a/b/metadata//type/X" ∧
        numberedDocument.Leads steps v ∧ v.shape = .number) ∧
    load dashedDocument = .error (.invalidTypeName "foo--bar") ∧ isTypeName "foo--bar" = false ∧
      ((isComment "foo--bar" = false ∧
          ∃ v, dashedDocument.Leads [.key SectionKey.customTypes, .key "foo--bar"] v) ∨
        ∃ there ms, TypePlace there ∧ dashedDocument.Leads there (.object ms) ∧
          ("$name", .text "foo--bar") ∈ ms) := by
  have hshape : load numberedDocument = .error (.unexpectedShape
      [.key "items", .key "a/b", .key "metadata", .key "", .key "type", .key "X"]
      .stringOrNull .number) := by decide +kernel
  have hname : load dashedDocument = .error (.invalidTypeName "foo--bar") := by decide +kernel
  obtain ⟨steps, v, hne, htext, hleads, -, hv, -⟩ :=
    (load_error_points_at_value numberedDocument).1 _ _ _ hshape
  refine ⟨⟨hshape, steps, v, hne, ?_, hleads, hv⟩, hname,
    (load_error_points_at_value dashedDocument).2 _ hname⟩
  rw [htext]
  decide +kernel

end BuildVocabulary

import BuildVocabulary.Proofs.Resolve
import BuildVocabulary.Schema.Entry

/-!
# What the parts of a document report

Names are declared in the four sections of named things and inside items, and each of these scopes
reports names that it has already. Everything else that is reported while a single entry is resolved
is plain: it tells nothing about repeated names, but about a field or how its type is written.

* `Scope`, `Finding.scope?`: the scopes, and the one whose repeated name a finding reports;
* `saysRedefined_iff`: these findings are known by their words;
* `ofType_resolveToken`, `ofType_resolveType`, `ofField_resolveField`: tokens, custom types and
  fields;
* `plain_resolveProperty`, `plain_resolveMetadata`, `plain_resolveTarget`: what entries report
  themselves;
* `scope_resolveItem`: an item reports repeated names of its own metadata only.
-/

namespace BuildVocabulary

open Json (Location Members)
open Resolve (ReportsOnly)

/-- Where names are declared, each at most once without a report. -/
inductive Scope where
  | defined (what : Defined)
  | metadata (item : String)
  deriving DecidableEq, Repr

/-- The report that a scope declares a name again. -/
def Scope.again : Scope → String → Finding
  | .defined what => .redefined what
  | .metadata item => fun name => .metadataRedefined name item

namespace Finding

/-- The scope whose repeated name a finding reports. -/
def scope? : Finding → Option Scope
  | .redefined what _ => some (.defined what)
  | .metadataRedefined _ item => some (.metadata item)
  | _ => none

/-- The finding reports no repeated name. -/
def Plain (f : Finding) : Prop := f.scope? = none

theorem Plain.scope?_ne {f : Finding} {s : Scope} (h : f.Plain) : f.scope? ≠ some s := by
  rw [show f.scope? = none from h]
  exact (Option.some_ne_none s).symm

end Finding

theorem scope?_again (s : Scope) (name : String) : (s.again name).scope? = some s := by
  cases s <;> rfl

/-! ## Their words -/

/-- The words that end every report of a repeated name. -/
def redefinedWords : List Char := " is defined more than once".toList

/-- The finding warns that something is defined more than once. -/
def Finding.SaysRedefined (f : Finding) : Prop :=
  f.severity = .warning ∧ redefinedWords <:+ f.message.toList

/-- A text ends in the words if its last part does. -/
theorem words_suffix_append {x t : String} (h : redefinedWords.isSuffixOf t.toList = true) :
    redefinedWords <:+ (x ++ t).toList := by
  rw [String.toList_append]
  exact (List.isSuffixOf_iff_suffix.mp h).trans (List.suffix_append _ _)

/-- Of two ends of one text, one ends in the other. -/
theorem not_words_suffix_append {x t : String}
    (h : (redefinedWords.isSuffixOf t.toList || t.toList.isSuffixOf redefinedWords) = false) :
    ¬ redefinedWords <:+ (x ++ t).toList := by
  intro hwords
  rw [String.toList_append] at hwords
  have hends := List.suffix_or_suffix_of_suffix hwords (List.suffix_append x.toList t.toList)
  rw [← List.isSuffixOf_iff_suffix, ← List.isSuffixOf_iff_suffix, ← Bool.or_eq_true, h] at hends
  cases hends

theorem saysRedefined_iff {f : Finding} : f.SaysRedefined ↔ ∃ s, f.scope? = some s := by
  cases f with
  | redefined | metadataRedefined =>
    exact ⟨fun _ => ⟨_, rfl⟩, fun _ => ⟨rfl, words_suffix_append (by decide +kernel)⟩⟩
  | _ =>
    -- every other message ends in words of its own
    refine ⟨fun h => absurd h.2 (not_words_suffix_append (by decide +kernel)), ?_⟩
    rintro ⟨s, hs⟩
    cases hs

section Plain

variable {registry : Registry} {here : Location} {name : String}

/-! ## Tokens and custom types -/

/-- The finding tells how a type token or a custom type is written. -/
def Finding.OfType : Finding → Prop
  | .ignoredTypeName _ | .unknownTypeDirective _ _ | .duplicateValue _ _ | .noValues _
  | .unknownKind _ _ | .unknownModifier _ _ | .namelessReference _ | .undefinedType _ _
  | .inlineTypeReplaced _ => True
  | _ => False

theorem ofType_missingType : (missingType name here).OfType := by
  unfold missingType
  split <;> trivial

theorem ofType_resolveModifiers {ss : List String} :
    (resolveModifiers here ss).ReportsOnly Finding.OfType := by
  induction ss with
  | nil => exact .pure _
  | cons s ss ih =>
    rw [resolveModifiers]
    split
    · exact ih.bind fun _ => .pure _
    · exact ih.after (List.forall_mem_singleton.mpr trivial)

theorem ofType_resolveToken {token : String} :
    (resolveToken registry here token).ReportsOnly Finding.OfType := by
  unfold resolveToken
  split
  · unfold resolveReference
    dsimp only
    split
    · exact ofType_resolveModifiers.bind fun _ => .pure _
    · exact .singleton ofType_missingType
  · split
    · exact .pure _
    · refine .bind ?_ fun _ => ofType_resolveModifiers.bind fun _ => .pure _
      unfold resolveBase
      split
      · exact .pure _
      · exact .singleton trivial

theorem ofType_addValue {t : CustomType} {v : TypeValue} :
    (t.addValue here v).ReportsOnly Finding.OfType := by
  unfold CustomType.addValue
  split
  · exact .singleton trivial
  · exact .pure _

theorem ofType_addMember {registered : Option String} {t : CustomType} {e : String × Json} :
    (t.addMember registered here e).ReportsOnly Finding.OfType := by
  unfold CustomType.addMember
  split_ifs
  · refine .lift_bind fun _ => .lift_bind fun _ => ?_
    split
    · exact .singleton trivial
    · exact .pure _
  · exact .lift_bind fun _ => .pure _
  · exact .pure _
  · exact .singleton trivial
  · exact .lift_bind fun _ => ofType_addValue

theorem ofType_addItems {t : CustomType} {i : Nat} {vs : List Json} :
    (t.addItems here i vs).ReportsOnly Finding.OfType := by
  induction vs generalizing t i with
  | nil => exact .pure _
  | cons v vs ih =>
    rw [CustomType.addItems]
    exact .lift_bind fun _ => ofType_addValue.bind fun _ => ih

theorem ofType_resolveType {registered : Option String} {v : Json} :
    (resolveType registered here v).ReportsOnly Finding.OfType := by
  have hclosing : ∀ t : CustomType, (do
      Resolve.reportIf (t.values.isEmpty && !t.allowUnknown) (.noValues here)
      pure t : Resolve CustomType).ReportsOnly Finding.OfType := by
    intro t
    refine .bind (.reportIf _ ?_) fun _ => .pure _
    trivial
  cases v with
  | object ms => exact .bind (.foldlM (fun _ _ _ => ofType_addMember) _) hclosing
  | array vs => exact .bind ofType_addItems hclosing
  | _ => trivial

theorem Finding.OfType.plain {f : Finding} (h : f.OfType) : f.Plain := by
  cases f <;> first | rfl | exact h.elim

theorem plain_resolveNamedType {v : Json} :
    (resolveNamedType here name v).ReportsOnly Finding.Plain :=
  .lift_bind fun _ => ofType_resolveType.mono fun _ h => h.plain

/-! ## Fields -/

theorem ofType_putInline {f : Field} {v : Json} :
    (f.putInline here v).ReportsOnly Finding.OfType := by
  refine ofType_resolveType.bind fun _ => .bind (.reportIf _ ?_) fun _ => .pure _
  trivial

theorem ofType_put {f : Field} {v : Json} {k : FieldKey} :
    (f.put registry here v k).ReportsOnly Finding.OfType := by
  cases k with
  | type =>
    simp only [Field.put]
    split
    · exact ofType_resolveToken.bind fun _ => .pure _
    · exact ofType_putInline
    · exact ofType_putInline
    · trivial
  | values => exact ofType_putInline
  | metadata => exact .pure _
  | _ => exact .lift_bind fun _ => .pure _

/-- The finding is about a field of this role and name, or tells how its type is written. -/
def Finding.OfField (role : Role) (name : String) : Finding → Prop
  | .unknownFieldKey _ r n | .inlineTypeIgnored r n | .idleDeprecationMessage r n =>
    r = role ∧ n = name
  | f => f.OfType

theorem Finding.OfType.ofField {f : Finding} (h : f.OfType) (role : Role) (name : String) :
    f.OfField role name := by
  cases f <;> first | exact h | exact h.elim

theorem Finding.OfField.plain {role : Role} {f : Finding} (h : f.OfField role name) :
    f.Plain := by
  cases f <;> first | rfl | exact h.elim

/-- A member reports how its type is written, or that its key is unknown. -/
theorem ofType_or_unknown_add {role : Role} {f : Field} {e : String × Json} :
    (f.add registry role name here e).ReportsOnly
      fun g => g.OfType ∨ g = .unknownFieldKey e.1 role name := by
  unfold Field.add
  split_ifs
  · exact .pure _
  · split
    · exact ofType_put.mono fun _ => .inl
    · exact .singleton (.inr rfl)

theorem ofField_add {role : Role} {f : Field} {e : String × Json} :
    (f.add registry role name here e).ReportsOnly (Finding.OfField role name) := by
  refine ofType_or_unknown_add.mono fun g hg => ?_
  rcases hg with hg | rfl
  · exact hg.ofField role name
  · exact ⟨rfl, rfl⟩

theorem ofField_closingFindings {role : Role} {f : Field} :
    ∀ g ∈ f.closingFindings role name, g.OfField role name := by
  unfold Field.closingFindings
  split_ifs <;> simp [Finding.OfField]

/-- A field reports on itself and on how its type is written. -/
theorem ofField_resolveField {role : Role} {ms : Members} :
    (resolveField registry role name here ms).ReportsOnly (Finding.OfField role name) :=
  .bind (.foldlM (fun _ _ _ => ofField_add) _) fun _ => ofField_closingFindings

theorem plain_resolveField {role : Role} {ms : Members} :
    (resolveField registry role name here ms).ReportsOnly Finding.Plain :=
  ofField_resolveField.mono fun _ h => h.plain

/-! ## Entries -/

theorem plain_resolveProperty {v : Json} :
    (resolveProperty registry here name v).ReportsOnly Finding.Plain := by
  cases v with
  | text s => exact .pure _
  | object ms => exact plain_resolveField.bind fun _ => .pure _
  | _ => trivial

theorem ofField_resolveMetadata {item : String} {v : Json} :
    (resolveMetadata registry item here name v).ReportsOnly
      (Finding.OfField .metadata name) := by
  cases v with
  | text s => exact .pure _
  | object ms => exact ofField_resolveField.bind fun _ => .pure _
  | _ => trivial

theorem plain_resolveMetadata {item : String} {v : Json} :
    (resolveMetadata registry item here name v).ReportsOnly Finding.Plain :=
  ofField_resolveMetadata.mono fun _ h => h.plain

theorem plain_resolveTarget {v : Json} :
    (resolveTarget here name v).ReportsOnly Finding.Plain := by
  cases v with
  | text s => exact .pure _
  | object ms =>
    refine .foldlM (fun t e _ => ?_) _
    unfold Target.add
    split_ifs
    · exact .lift_bind fun _ => .pure _
    · exact .pure _
    · exact .singleton rfl
  | _ => trivial

/-- An item reports repeated names of its own metadata only. -/
theorem scope_resolveItem {v : Json} : (resolveItem registry here name v).ReportsOnly
    fun f => f.Plain ∨ f.scope? = some (.metadata name) := by
  refine .lift_bind fun ms => .bind (plain_resolveField.mono fun _ => .inl) fun f => ?_
  refine .bind (.reportIf _ (.inl rfl)) fun _ => .bind ?_ fun _ => .pure _
  unfold resolveItemMetadata
  split
  · exact .pure _
  · exact .resolveSection (fun _ => .inr rfl) fun _ _ => plain_resolveMetadata.mono fun _ => .inl

end Plain

end BuildVocabulary

import BuildVocabulary.Proofs.Load.Grammar
import Mathlib.Data.Set.List

/-!
# Required shapes

A value that is asked for a shape gives something exactly if it has this shape.

* `requireObject_eq_ok`, `requireArray_eq_ok`, `requireText_eq_ok`, `requireTexts_eq_ok`: what is
  given, in terms of the value;
* `exists_requireBool`, `exists_requireText?`, `exists_requireScalar?`, `exists_requireTexts`,
  `exists_requireStrings`: when something is given.
-/

namespace BuildVocabulary.Json

variable {here : Location} {v : Json}

/-! ## One value -/

theorem requireObject_eq_ok {ms : Members} : requireObject here v = .ok ms ↔ v = .object ms := by
  cases v <;> simp [requireObject]

theorem requireArray_eq_ok {vs : List Json} : requireArray here v = .ok vs ↔ v = .array vs := by
  cases v <;> simp [requireArray]

theorem requireText_eq_ok {s : String} : requireText here v = .ok s ↔ v = .text s := by
  cases v <;> simp [requireText]

theorem exists_text : (∃ s, v = .text s) ↔ v.shape = .string := by
  cases v <;> simp [shape]

theorem exists_requireText : (∃ s, requireText here v = .ok s) ↔ v.shape = .string := by
  simp only [requireText_eq_ok, exists_text]

theorem exists_requireBool : (∃ b, requireBool here v = .ok b) ↔ v.shape = .boolean := by
  cases v <;> simp [requireBool, shape]

theorem exists_requireText? : (∃ d, requireText? here v = .ok d) ↔ v.TextOrNull := by
  cases v <;> simp [requireText?, TextOrNull, shape]

theorem exists_requireScalar? : (∃ d, requireScalar? here v = .ok d) ↔ v.Scalar := by
  cases v <;> simp [requireScalar?, Scalar, shape]

/-! ## Several texts -/

theorem bind_eq_ok {α β : Type} {x : Except LoadError α} {f : α → Except LoadError β} {b : β} :
    x >>= f = .ok b ↔ ∃ a, x = .ok a ∧ f a = .ok b := by
  cases x with
  | ok a => exact ⟨fun h => ⟨a, rfl, h⟩, fun ⟨_, ha, h⟩ => Except.ok.inj ha ▸ h⟩
  | error e => exact ⟨fun h => (nomatch h), fun ⟨_, ha, _⟩ => (nomatch ha)⟩

/-- The texts of an array are those that make up the array. -/
theorem requireTexts_eq_ok {i : ℕ} {vs : List Json} {ss : List String} :
    requireTexts here i vs = .ok ss ↔ vs = ss.map .text := by
  induction vs generalizing i ss with
  | nil => rw [requireTexts, Except.ok.injEq, eq_comm, eq_comm (a := []), List.map_eq_nil_iff]
  | cons w vs ih =>
    simp only [requireTexts, bind_eq_ok, requireText_eq_ok, ih]
    constructor
    · rintro ⟨s, rfl, ss', rfl, hss⟩
      rw [← Except.ok.inj hss, List.map_cons]
    · intro h
      obtain ⟨s, ss', rfl, hw, hvs⟩ := List.map_eq_cons_iff.mp h.symm
      exact ⟨s, hw.symm, ss', hvs.symm, rfl⟩

theorem exists_requireTexts (here : Location) (i : ℕ) {vs : List Json} :
    (∃ ss, requireTexts here i vs = .ok ss) ↔ (Json.array vs).Texts := by
  simp only [requireTexts_eq_ok, Texts]
  constructor
  · rintro ⟨ss, rfl⟩ w hw
    obtain ⟨s, -, rfl⟩ := List.mem_map.mp hw
    rfl
  · intro h
    have hrange : vs ∈ Set.range (List.map Json.text) := by
      rw [Set.range_list_map]
      intro w hw
      obtain ⟨s, hs⟩ := exists_text.mpr (h w hw)
      exact ⟨s, hs.symm⟩
    obtain ⟨ss, hss⟩ := hrange
    exact ⟨ss, hss.symm⟩

/-- A condition on what follows a non-empty list of texts. -/
theorem exists_requireStrings (here : Location) {q : Prop} :
    (∃ ss, requireStrings here v = .ok ss ∧ (ss ≠ [] → q)) ↔
      (v.shape = .string ∨ v.Texts) ∧ (v ≠ .array [] → q) := by
  cases v with
  | text s => simp [requireStrings, shape]
  | array vs =>
    have hempty : ∀ ss, requireTexts here 0 vs = .ok ss → (ss ≠ [] ↔ Json.array vs ≠ .array []) := by
      intro ss h
      rw [requireTexts_eq_ok.mp h, ne_eq, ne_eq, Json.array.injEq, List.map_eq_nil_iff]
    simp only [requireStrings, shape, reduceCtorEq, false_or, ← exists_requireTexts here 0]
    constructor
    · rintro ⟨ss, hss, hq⟩
      exact ⟨⟨ss, hss⟩, fun hne => hq ((hempty ss hss).mpr hne)⟩
    · rintro ⟨⟨ss, hss⟩, hq⟩
      exact ⟨ss, hss, fun hne => hq ((hempty ss hss).mp hne)⟩
  | _ => simp [requireStrings, shape, Texts]

end BuildVocabulary.Json

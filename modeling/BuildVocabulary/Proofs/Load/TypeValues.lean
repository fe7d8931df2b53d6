import BuildVocabulary.Proofs.Load.Acceptance
import BuildVocabulary.Proofs.Load.FieldMembers

/-!
# The values of a custom type

A custom type holds the values that its definition lists, each under the first of its spellings. It
does not matter whether the values are listed in an array or as the keys of an object.

* `firstValues`, `find?_firstValues`: the first value of each class, which is the one that is found;
* `Json.Offers`: the values that a definition lists;
* `Collected`: what holds after some values have been read, kept by every step of reading;
* `resolveType_array_eq_object`: both written forms;
* **`type_values_deduplicated`**: what is kept, what is reported and what is found.
-/

namespace BuildVocabulary

open Json (Location Members)

/-! ## First values -/

/-- The values that no value before them repeats in any spelling. -/
def firstValues (cs : List TypeValue) : List TypeValue :=
  cs.eraseDupsBy fun c d => SameName c.value d.value

section FirstValues

variable {cs : List TypeValue} {c d : TypeValue}

theorem firstValues_cons :
    firstValues (d :: cs) = d :: firstValues (cs.filter fun c => ¬ SameName c.value d.value) := by
  rw [firstValues, List.eraseDupsBy_cons, firstValues]
  simp

theorem named_values_iff {name : String} :
    named (cs.map TypeValue.value) name = true ↔ ∃ c ∈ cs, SameName c.value name := by
  simp [named]

/-- Values that repeat another value do not matter to a value that does not. -/
theorem named_filter (h : ¬ SameName d.value c.value) :
    named ((cs.filter fun b => ¬ SameName b.value d.value).map TypeValue.value) c.value =
      named (cs.map TypeValue.value) c.value := by
  rw [Bool.eq_iff_iff, named_values_iff, named_values_iff]
  constructor
  · rintro ⟨b, hb, hbc⟩
    exact ⟨b, List.mem_of_mem_filter hb, hbc⟩
  · rintro ⟨b, hb, hbc⟩
    have hbd : ¬ SameName b.value d.value := fun hbd => h (hbd.symm.trans hbc)
    exact ⟨b, List.mem_filter.mpr ⟨hb, decide_eq_true hbd⟩, hbc⟩

theorem firstValues_concat (cs : List TypeValue) (c : TypeValue) : firstValues (cs ++ [c]) =
    firstValues cs ++ if named (cs.map TypeValue.value) c.value then [] else [c] := by
  -- by the number of values, since those that repeat the first one are taken out
  induction hn : cs.length using Nat.strong_induction_on generalizing cs with
  | _ n ih =>
    cases cs with
    | nil => rfl
    | cons d cs =>
      rw [List.cons_append, firstValues_cons, firstValues_cons, List.filter_append, List.map_cons,
        named_cons]
      by_cases hdc : SameName d.value c.value
      · have hdrop : [c].filter (fun b => ¬ SameName b.value d.value) = [] := by
          simpa using hdc.symm
        rw [hdrop, decide_eq_true hdc, List.append_nil]
        simp
      · have hkeep : [c].filter (fun b => ¬ SameName b.value d.value) = [c] := by
          simpa using fun hcd : SameName c.value d.value => hdc hcd.symm
        have hlt : (cs.filter fun b => ¬ SameName b.value d.value).length < n := by
          have hle := List.length_filter_le (fun b => decide (¬ SameName b.value d.value)) cs
          rw [List.length_cons] at hn
          omega
        rw [hkeep, ih _ hlt _ rfl, named_filter hdc, decide_eq_false hdc, Bool.false_or,
          List.cons_append]

/-- The value that is found under a text is the first one with it. -/
theorem find?_firstValues (cs : List TypeValue) (name : String) :
    (firstValues cs).find? (fun c => SameName c.value name) =
      cs.find? fun c => SameName c.value name := by
  induction cs using List.reverseRecOn with
  | nil => rfl
  | append_singleton cs c ih =>
    rw [firstValues_concat, List.find?_append, List.find?_append, ih]
    by_cases hnamed : named (cs.map TypeValue.value) c.value = true
    · rw [if_pos hnamed, List.find?_nil, Option.or_none]
      by_cases hc : SameName c.value name
      · -- a value that repeats another is not found, for the other one comes first
        obtain ⟨d, hd, hsame⟩ := named_values_iff.mp hnamed
        have hfound : (cs.find? fun c => SameName c.value name).isSome = true :=
          List.find?_isSome.mpr ⟨d, hd, decide_eq_true (hsame.trans hc)⟩
        rw [Option.or_of_isSome hfound]
      · rw [List.find?_singleton, decide_eq_false hc]
        exact Option.or_none.symm
    · rw [if_neg hnamed]

theorem isSome_find?_values_iff {t : CustomType} (h : t.values = firstValues cs) {name : String} :
    (t.find? name).isSome = true ↔ named (cs.map TypeValue.value) name = true := by
  rw [CustomType.find?, h, find?_firstValues, List.find?_isSome, named_values_iff]
  simp only [decide_eq_true_eq]

end FirstValues

/-! ## Values that a definition lists -/

/-- The value that a member of an object lists. -/
def candidate? (e : String × Json) : Option TypeValue :=
  if isComment e.1 || isDirective e.1 then none else some ⟨e.1, e.2.text?⟩

/-- A definition lists these values: the texts of an array, or the keys of an object that are
neither comments nor directives, with what describes them. -/
inductive Json.Offers : Json → List TypeValue → Prop where
  | array (ss : List String) : Offers (.array (ss.map .text)) (ss.map fun s => ⟨s, none⟩)
  | object (ms : Members) : Offers (.object ms) (ms.filterMap candidate?)

/-- Whether a finding reports a repeated value. -/
def Finding.repeatsValue : Finding → Bool
  | .duplicateValue _ _ => true
  | _ => false

/-- The warning about a repeated value. -/
def duplicateWarning (here : Location) (value : String) : Diagnostic :=
  ⟨.warning, s!"duplicate value '{value}' in custom type at '{here.text}'"⟩

/-! ## Reading values -/

/-- What has been read after some values: the first of them are kept, the others are reported. -/
structure Collected (here : Location) (cs : List TypeValue) (t : CustomType) (fs : List Finding) :
    Prop where
  values : t.values = firstValues cs
  reports : fs.filter Finding.repeatsValue =
    (repeats (cs.map TypeValue.value)).map (.duplicateValue · here)

section Reading

variable {registered : Option String} {here : Location} {cs : List TypeValue} {c : TypeValue}
  {t u : CustomType} {fs gs : List Finding}

namespace Collected

theorem addValue (h : Collected here cs t fs) (hu : t.addValue here c = .ok u gs) :
    Collected here (cs ++ [c]) u (fs ++ gs) := by
  unfold CustomType.addValue at hu
  simp only [isSome_find?_values_iff h.values] at hu
  constructor
  · rw [firstValues_concat, ← h.values]
    split_ifs at hu ⊢
    · cases hu
      exact (List.append_nil _).symm
    · cases hu
      rfl
  · rw [List.filter_append, h.reports, List.map_append, List.map_singleton, repeats_concat,
      List.map_append]
    split_ifs at hu ⊢
    · cases hu
      rfl
    · cases hu
      rfl

/-- What is no value leaves the values, and reports something else. -/
theorem skip (h : Collected here cs t fs) (hvalues : u.values = t.values)
    (hgs : gs.filter Finding.repeatsValue = []) : Collected here cs u (fs ++ gs) :=
  ⟨hvalues.trans h.values, by rw [List.filter_append, hgs, List.append_nil, h.reports]⟩

theorem addMember {e : String × Json} (h : Collected here cs t fs)
    (hu : t.addMember registered here e = .ok u gs) :
    Collected here (cs ++ (candidate? e).toList) u (fs ++ gs) := by
  have hskip : ∀ {t' gs'}, candidate? e = none → t'.values = t.values →
      gs'.filter Finding.repeatsValue = [] →
      Collected here (cs ++ (candidate? e).toList) t' (fs ++ gs') := by
    intro t' gs' hnone hvalues hgs
    rw [hnone, Option.toList_none, List.append_nil]
    exact h.skip hvalues hgs
  unfold CustomType.addMember at hu
  split_ifs at hu with hname hallow hcomment hdirective
  · have hnone : candidate? e = none := by
      rw [candidate?, hname]
      rfl
    simp only [Resolve.bind_eq_ok_iff, Resolve.lift_eq_ok_iff] at hu
    obtain ⟨name, _, _, ⟨-, rfl⟩, ⟨_, _, gs', ⟨-, rfl⟩, hu, rfl⟩, rfl⟩ := hu
    cases registered with
    | some r =>
      cases hu
      exact hskip hnone rfl rfl
    | none =>
      cases hu
      exact hskip hnone rfl rfl
  · have hnone : candidate? e = none := by
      rw [candidate?, hallow]
      rfl
    simp only [Resolve.bind_eq_ok_iff, Resolve.lift_eq_ok_iff] at hu
    obtain ⟨allow, _, gs', ⟨-, rfl⟩, hu, rfl⟩ := hu
    cases hu
    exact hskip hnone rfl rfl
  · cases hu
    exact hskip (by rw [candidate?, hcomment]; rfl) rfl rfl
  · cases hu
    exact hskip (by rw [candidate?, hdirective, Bool.or_true]; rfl) rfl rfl
  · simp only [Resolve.bind_eq_ok_iff, Resolve.lift_eq_ok_iff] at hu
    obtain ⟨description, _, gs', ⟨hdescription, rfl⟩, hu, rfl⟩ := hu
    have hsome : candidate? e = some ⟨e.1, description⟩ := by
      rw [candidate?, eq_of_requireText? hdescription]
      simp [hcomment, hdirective]
    rw [hsome]
    exact h.addValue hu

theorem foldlM_addMember {ms : Members} (h : Collected here cs t fs)
    (hu : ms.foldlM (CustomType.addMember registered here) t = .ok u gs) :
    Collected here (cs ++ ms.filterMap candidate?) u (fs ++ gs) := by
  induction ms generalizing cs t fs gs with
  | nil =>
    cases hu
    rw [List.filterMap_nil, List.append_nil, List.append_nil]
    exact h
  | cons e ms ih =>
    rw [List.foldlM_cons, Resolve.bind_eq_ok_iff] at hu
    obtain ⟨t', fs', gs', ht', hu, rfl⟩ := hu
    have hrest := ih (h.addMember ht') hu
    rw [List.append_assoc, List.append_assoc] at hrest
    have hcons : (e :: ms).filterMap candidate? =
        (candidate? e).toList ++ ms.filterMap candidate? := by
      rw [List.filterMap_cons]
      cases candidate? e <;> rfl
    rw [hcons]
    exact hrest

theorem addItems {i : ℕ} {vs : List Json} (h : Collected here cs t fs)
    (hu : t.addItems here i vs = .ok u gs) : ∃ ss : List String,
      vs = ss.map .text ∧ Collected here (cs ++ ss.map fun s => ⟨s, none⟩) u (fs ++ gs) := by
  induction vs generalizing i cs t fs gs with
  | nil =>
    cases hu
    refine ⟨[], rfl, ?_⟩
    rw [List.map_nil, List.append_nil, List.append_nil]
    exact h
  | cons v vs ih =>
    simp only [CustomType.addItems, Resolve.bind_eq_ok_iff, Resolve.lift_eq_ok_iff,
      Json.requireText_eq_ok] at hu
    obtain ⟨s, _, _, ⟨rfl, rfl⟩, ⟨t', fs', gs', ht', hu, rfl⟩, rfl⟩ := hu
    obtain ⟨ss, rfl, hrest⟩ := ih (h.addValue ht') hu
    refine ⟨s :: ss, rfl, ?_⟩
    rw [List.append_assoc, List.append_assoc] at hrest
    exact hrest

/-- The closing report is about the type as a whole. -/
theorem close (h : Collected here cs t fs)
    (hu : Resolve.reportIf (t.values.isEmpty && !t.allowUnknown) (.noValues here) >>=
      (fun _ => pure t) = .ok u gs) : Collected here cs u (fs ++ gs) := by
  cases hempty : t.values.isEmpty && !t.allowUnknown with
  | true =>
    rw [hempty] at hu
    cases hu
    exact h.skip rfl rfl
  | false =>
    rw [hempty] at hu
    cases hu
    exact h.skip rfl rfl

end Collected

/-- What a definition gives are the first of the values that it lists. -/
theorem collected_of_resolveType {v : Json} (h : resolveType registered here v = .ok t fs) :
    ∃ cs, v.Offers cs ∧ Collected here cs t fs := by
  have hblank : Collected here [] { name := registered } [] := ⟨rfl, rfl⟩
  cases v with
  | object ms =>
    simp only [resolveType, Resolve.bind_eq_ok_iff] at h
    obtain ⟨t', gs, hs, ht', hclose, rfl⟩ := h
    exact ⟨_, .object ms, (hblank.foldlM_addMember ht').close (Resolve.bind_eq_ok_iff.mpr hclose)⟩
  | array vs =>
    simp only [resolveType, Resolve.bind_eq_ok_iff] at h
    obtain ⟨t', gs, hs, ht', hclose, rfl⟩ := h
    obtain ⟨ss, rfl, hcollected⟩ := hblank.addItems ht'
    exact ⟨_, .array ss, hcollected.close (Resolve.bind_eq_ok_iff.mpr hclose)⟩
  | _ => cases h

/-! ## Both written forms -/

theorem addMember_of_value {s : String} (hdirective : isDirective s = false)
    (hcomment : isComment s = false) :
    t.addMember registered here (s, .null) = t.addValue here ⟨s, none⟩ := by
  have hne : ∀ key, isDirective key = true → s ≠ key := by
    rintro key hkey rfl
    rw [hdirective] at hkey
    cases hkey
  unfold CustomType.addMember
  rw [if_neg (hne "$name" (by decide)), if_neg (hne "$allow-unknown-values" (by decide)),
    if_neg (by simp [hcomment]), if_neg (by simp [hdirective])]
  exact Resolve.lift_ok_bind none _

theorem addItems_eq_foldlM {ss : List String} {i : ℕ}
    (h : ∀ s ∈ ss, isDirective s = false ∧ isComment s = false) :
    t.addItems here i (ss.map .text) =
      (ss.map fun s => (s, Json.null)).foldlM (CustomType.addMember registered here) t := by
  induction ss generalizing i t with
  | nil => rfl
  | cons s ss ih =>
    obtain ⟨⟨hdirective, hcomment⟩, hss⟩ := List.forall_mem_cons.mp h
    rw [List.map_cons, List.map_cons, List.foldlM_cons, addMember_of_value hdirective hcomment,
      CustomType.addItems, Json.requireText, Resolve.lift_ok_bind]
    exact bind_congr fun u => ih hss

/-- An array of texts and an object with these texts as its keys define the same type. -/
theorem resolveType_array_eq_object {ss : List String}
    (h : ∀ s ∈ ss, isDirective s = false ∧ isComment s = false) :
    resolveType registered here (.array (ss.map .text)) =
      resolveType registered here (.object (ss.map fun s => (s, .null))) := by
  simp only [resolveType]
  rw [addItems_eq_foldlM h]

theorem exists_resolveType_array (registered : Option String) (here : Location) (ss : List String) :
    ∃ t fs, resolveType registered here (.array (ss.map .text)) = .ok t fs := by
  have hshape : (Json.array (ss.map .text)).TypeShape := by
    refine .inl fun v hv => ?_
    obtain ⟨s, -, rfl⟩ := List.mem_map.mp hv
    rfl
  obtain ⟨t, ht⟩ := accepted_resolveType.mpr hshape
  exact ⟨t, ht.exists_eq_ok⟩

end Reading

/-- **A custom type holds the first of the values that its definition lists.** Every other value is
reported, once each and in their order; and under every spelling of a value the first one of its
class is found. Texts that are no comments or directives define the same type with the same
diagnostics whether they are the elements of an array or the keys of an object. -/
theorem type_values_deduplicated (registered : Option String) (here : Location) :
    (∀ v t fs, resolveType registered here v = .ok t fs → ∃ cs, v.Offers cs ∧
      t.values = firstValues cs ∧
      (fs.filter Finding.repeatsValue).map Finding.diagnostic =
        (repeats (cs.map TypeValue.value)).map (duplicateWarning here) ∧
      ∀ c ∈ cs, ∀ name, SameName c.value name → ∃ d,
        t.find? name = some d ∧ cs.find? (fun c => SameName c.value name) = some d) ∧
    ∀ ss : List String, (∀ s ∈ ss, isDirective s = false ∧ isComment s = false) → ∃ t fs,
      resolveType registered here (.array (ss.map .text)) = .ok t fs ∧
      resolveType registered here (.object (ss.map fun s => (s, .null))) = .ok t fs := by
  constructor
  · intro v t fs h
    obtain ⟨cs, hoffers, hvalues, hreports⟩ := collected_of_resolveType h
    refine ⟨cs, hoffers, hvalues, ?_, fun c hc name hsame => ?_⟩
    · rw [hreports, List.map_map]
      rfl
    · have hfound : (t.find? name).isSome = true :=
        (isSome_find?_values_iff hvalues).mpr (named_values_iff.mpr ⟨c, hc, hsame⟩)
      obtain ⟨d, hd⟩ := Option.isSome_iff_exists.mp hfound
      refine ⟨d, hd, ?_⟩
      rw [← hd, CustomType.find?, hvalues, find?_firstValues]
  · intro ss h
    obtain ⟨t, fs, ht⟩ := exists_resolveType_array registered here ss
    exact ⟨t, fs, ht, (resolveType_array_eq_object h).symm.trans ht⟩

/-- A definition with directives and a comment between values, two of which are repeated. -/
def toneDefinition : Json := .object [
  ("Red", .text "Warm"),
  ("# RED", .null),
  ("$sorted", .bool true),
  ("BLUE", .null),
  ("rED", .text "Hot"),
  ("$allow-unknown-values", .bool true),
  ("Blue", .text "Cold")]

def toneLocation : Location := [.key "customTypes", .key "Tone"]

/-- The type that it defines. -/
def tones : CustomType where
  name := some "Tone"
  values := [⟨"Red", some "Warm"⟩, ⟨"BLUE", none⟩]
  allowUnknown := true

def toneFindings : List Finding := [.unknownTypeDirective "$sorted" toneLocation,
  .duplicateValue "rED" toneLocation, .duplicateValue "Blue" toneLocation]

/-- What is found in this type, and a list of values in both forms. -/
theorem type_values_deduplicated_tones :
    resolveType (some "Tone") toneLocation toneDefinition = .ok tones toneFindings ∧
    (∃ cs, toneDefinition.Offers cs ∧ tones.values = firstValues cs ∧
      (toneFindings.filter Finding.repeatsValue).map Finding.diagnostic =
        (repeats (cs.map TypeValue.value)).map (duplicateWarning toneLocation) ∧
      ∀ c ∈ cs, ∀ name, SameName c.value name → ∃ d, tones.find? name = some d ∧
        cs.find? (fun c => SameName c.value name) = some d) ∧
    (∀ s ∈ ["Dark", "light", "DARK"], isDirective s = false ∧ isComment s = false) ∧
    ∃ t fs,
      resolveType (some "Tone") toneLocation (.array (["Dark", "light", "DARK"].map .text)) =
        .ok t fs ∧
      resolveType (some "Tone") toneLocation
        (.object (["Dark", "light", "DARK"].map fun s => (s, .null))) = .ok t fs := by
  have hok : resolveType (some "Tone") toneLocation toneDefinition = .ok tones toneFindings := by
    rfl
  have hplain : ∀ s ∈ ["Dark", "light", "DARK"], isDirective s = false ∧ isComment s = false := by
    decide
  obtain ⟨hvalues, hforms⟩ := type_values_deduplicated (some "Tone") toneLocation
  exact ⟨hok, hvalues _ _ _ hok, hplain, hforms _ hplain⟩

end BuildVocabulary

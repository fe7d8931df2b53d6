import BuildVocabulary.Proofs.Segments
import BuildVocabulary.Schema.TypeDefinition
import BuildVocabulary.Validation
import Mathlib.Computability.Language

/-!
# Names of custom types

Names are read from left to right. What is accepted in this way are words of letters and digits with
single dashes between them, which can be said in two more ways: by cutting a name at its dashes, and
by a grammar.

* `isTypeName_iff`: reading from left to right, and cutting at the dashes;
* `mem_typeNames_iff`: the grammar, and cutting at the dashes;
* `NameFault`: signs that a text is no name;
* **`type_names_are_dashed_words`**: the rule in all three ways, and what is said of other texts.
-/

namespace BuildVocabulary

open scoped Computability

/-- The letters and digits of ASCII. -/
def IsNameChar (c : Char) : Prop := ('A' ≤ c ∧ c ≤ 'Z') ∨ ('a' ≤ c ∧ c ≤ 'z') ∨ ('0' ≤ c ∧ c ≤ '9')

/-- A word has at least one character, and consists of letters and digits. -/
def IsNameWord (cs : List Char) : Prop := cs ≠ [] ∧ ∀ c ∈ cs, IsNameChar c

/-- All words. -/
def nameWords : Language Char := {cs | IsNameWord cs}

/-- A word, and then any number of words with a dash before each. -/
def typeNames : Language Char := nameWords * ({['-']} * nameWords)∗

variable {s : String} {c : Char} {cs w : List Char} {ws : List (List Char)}

theorem isAlphanum_iff : c.isAlphanum = true ↔ IsNameChar c := by
  unfold Char.isAlphanum Char.isAlpha Char.isUpper Char.isLower Char.isDigit IsNameChar
  simp only [Bool.or_eq_true, Bool.and_eq_true, decide_eq_true_eq, or_assoc, ge_iff_le]
  rfl

theorem IsNameChar.ne_dash (h : IsNameChar c) : c ≠ '-' := by
  rintro rfl
  exact absurd (isAlphanum_iff.mpr h) (by decide)

theorem IsNameWord.dash_notMem (h : IsNameWord w) : '-' ∉ w := fun hdash =>
  (h.2 '-' hdash).ne_dash rfl

theorem forall_isNameWord_cons : (∀ v ∈ w :: ws, IsNameWord v) ↔
    w ≠ [] ∧ (∀ c ∈ w, IsNameChar c) ∧ ∀ v ∈ ws, IsNameWord v := by
  rw [List.forall_mem_cons, IsNameWord, and_assoc]

/-! ## Reading from left to right -/

/-- The first word may have begun before the rest of a name. -/
theorem continuesName_iff {inSegment : Bool} (h : pieces '-' cs = w :: ws) :
    continuesName inSegment cs = true ↔
      (inSegment = true ∨ w ≠ []) ∧ (∀ c ∈ w, IsNameChar c) ∧ ∀ v ∈ ws, IsNameWord v := by
  induction cs generalizing inSegment w ws with
  | nil =>
    cases h
    simp [continuesName]
  | cons c cs ih =>
    obtain ⟨v, vs, hv⟩ := exists_pieces_eq_cons '-' cs
    by_cases hc : c = '-'
    · -- a word ends here, and the next one must have a character
      subst hc
      rw [pieces_separator_cons, hv] at h
      cases h
      have hdash : ¬ '-'.isAlphanum = true := by decide
      rw [continuesName, if_neg hdash, forall_isNameWord_cons]
      simp [ih hv]
    · rw [pieces_cons hc hv] at h
      cases h
      rw [List.forall_mem_cons, continuesName]
      by_cases hchar : IsNameChar c
      · rw [if_pos (isAlphanum_iff.mpr hchar), ih hv]
        simp [hchar]
      · rw [if_neg (mt isAlphanum_iff.mp hchar)]
        simp [hc, hchar]

theorem isTypeName_iff : isTypeName s = true ↔ ∀ w ∈ pieces '-' s.toList, IsNameWord w := by
  obtain ⟨w, ws, h⟩ := exists_pieces_eq_cons '-' s.toList
  rw [isTypeName, continuesName_iff h, h, forall_isNameWord_cons]
  simp

theorem forall_segments_iff {P : List Char → Prop} :
    (∀ w ∈ segments s, P w.toList) ↔ ∀ w ∈ pieces '-' s.toList, P w := by
  rw [segments, List.forall_mem_map]
  simp only [String.toList_ofList]

/-! ## The grammar -/

theorem mem_kstar_dashed_iff : cs ∈ ({['-']} * nameWords)∗ ↔
    ∃ ws : List (List Char), (∀ v ∈ ws, IsNameWord v) ∧ ws.flatMap ('-' :: ·) = cs := by
  rw [Language.mem_kstar]
  constructor
  · rintro ⟨ys, rfl, hys⟩
    induction ys with
    | nil => exact ⟨[], List.forall_mem_nil _, rfl⟩
    | cons y ys ih =>
      obtain ⟨hy, hys⟩ := List.forall_mem_cons.mp hys
      obtain ⟨ws, hws, hflat⟩ := ih hys
      obtain ⟨_, rfl, w, hw, rfl⟩ := Language.mem_mul.mp hy
      refine ⟨w :: ws, List.forall_mem_cons.mpr ⟨hw, hws⟩, ?_⟩
      rw [List.flatMap_cons, hflat, List.flatten_cons]
      rfl
  · rintro ⟨ws, hws, rfl⟩
    refine ⟨ws.map ('-' :: ·), List.flatMap_def, fun y hy => ?_⟩
    obtain ⟨w, hw, rfl⟩ := List.mem_map.mp hy
    exact Language.append_mem_mul (Set.mem_singleton ['-']) (hws w hw)

theorem mem_typeNames_iff : cs ∈ typeNames ↔ ∀ w ∈ pieces '-' cs, IsNameWord w := by
  rw [typeNames, Language.mem_mul]
  constructor
  · rintro ⟨w, hw, ds, hds, rfl⟩
    obtain ⟨ws, hws, rfl⟩ := mem_kstar_dashed_iff.mp hds
    have hdash : ∀ v ∈ ws, '-' ∉ v := fun v hv => (hws v hv).dash_notMem
    rw [pieces_append_flatMap hw.dash_notMem hdash]
    exact List.forall_mem_cons.mpr ⟨hw, hws⟩
  · intro h
    obtain ⟨w, ws, hcut⟩ := exists_pieces_eq_cons '-' cs
    rw [hcut, List.forall_mem_cons] at h
    exact ⟨w, h.1, _, mem_kstar_dashed_iff.mpr ⟨ws, h.2, rfl⟩, append_flatMap_pieces hcut⟩

/-! ## Texts that are no names -/

/-- A sign that a text is no name. -/
inductive NameFault (s : String) : Prop where
  /-- The text ends with a line break. -/
  | lineBreak (t : String) (h : s = t ++ "\n")
  /-- A letter, a digit or anything else is beyond ASCII. -/
  | beyondAscii (c : Char) (hc : c ∈ s.toList) (h : 128 ≤ c.toNat)
  | leadingDash (t : String) (h : s = "-" ++ t)
  | trailingDash (t : String) (h : s = t ++ "-")
  | doubledDash (t u : String) (h : s = t ++ "--" ++ u)

theorem isTypeName_eq_false_of_mem (hc : c ∈ s.toList) (hdash : c ≠ '-') (h : ¬ IsNameChar c) :
    isTypeName s = false := by
  obtain ⟨w, hw, hcw⟩ := exists_mem_pieces_iff.mpr ⟨hc, hdash⟩
  rw [Bool.eq_false_iff, ne_eq, isTypeName_iff]
  exact fun hall => h ((hall w hw).2 c hcw)

theorem isTypeName_eq_false_of_nil_mem (h : [] ∈ pieces '-' s.toList) : isTypeName s = false := by
  rw [Bool.eq_false_iff, ne_eq, isTypeName_iff]
  exact fun hall => (hall [] h).1 rfl

theorem nil_mem_pieces_separator (separator : Char) : [] ∈ pieces separator [] :=
  List.mem_singleton.mpr rfl

theorem NameFault.isTypeName_eq_false (h : NameFault s) : isTypeName s = false := by
  cases h with
  | lineBreak t h =>
    have hmem : '\n' ∈ s.toList := by simp [h]
    exact isTypeName_eq_false_of_mem hmem (by decide) (mt isAlphanum_iff.mpr (by decide))
  | beyondAscii c hc h =>
    refine isTypeName_eq_false_of_mem hc ?_ fun hchar => ?_
    · rintro rfl
      exact absurd h (by decide)
    · have hlt := toNat_lt_of_isAlphanum (isAlphanum_iff.mpr hchar)
      omega
  | leadingDash t h =>
    apply isTypeName_eq_false_of_nil_mem
    rw [h, String.toList_append]
    exact pieces_separator_cons ▸ List.mem_cons_self
  | trailingDash t h =>
    apply isTypeName_eq_false_of_nil_mem
    have hlist : s.toList = t.toList ++ '-' :: [] := by simp [h]
    rw [hlist, pieces_append_separator]
    exact List.mem_append_right _ (nil_mem_pieces_separator '-')
  | doubledDash t u h =>
    apply isTypeName_eq_false_of_nil_mem
    have hlist : s.toList = t.toList ++ '-' :: '-' :: u.toList := by simp [h]
    rw [hlist, pieces_append_separator, pieces_separator_cons]
    exact List.mem_append_right _ List.mem_cons_self

/-! ## The rule -/

theorem typeNameProblem?_eq_none_iff : typeNameProblem? s = none ↔ isTypeName s = true := by
  rw [typeNameProblem?]
  split_ifs with h <;> simp [h]

/-- **A name is accepted exactly if cutting it at its dashes gives words only**, which is the
grammar of a word followed by words with a dash before each; and joining these words gives the name
again. Every other text is refused with itself in the report, and so is every text with one of the
signs of `NameFault`. -/
theorem type_names_are_dashed_words (s : String) :
    (typeNameProblem? s = none ↔ ∀ w ∈ segments s, IsNameWord w.toList) ∧
    (typeNameProblem? s = none ↔ s.toList ∈ typeNames) ∧
    (typeNameProblem? s = none ↔ requireTypeName s = .ok ()) ∧
    joined (segments s) = s ∧
    (typeNameProblem? s = none ∨ typeNameProblem? s = some (.invalidTypeName s)) ∧
    (NameFault s → typeNameProblem? s = some (.invalidTypeName s)) := by
  refine ⟨?_, ?_, ?_, joined_segments s, ?_, fun h => ?_⟩
  · rw [typeNameProblem?_eq_none_iff, isTypeName_iff, forall_segments_iff]
  · rw [typeNameProblem?_eq_none_iff, isTypeName_iff, mem_typeNames_iff]
  · rw [typeNameProblem?_eq_none_iff, requireTypeName]
    split_ifs with h <;> simp [h]
  · rw [typeNameProblem?]
    split_ifs
    · exact .inl rfl
    · exact .inr rfl
  · rw [typeNameProblem?, h.isTypeName_eq_false]
    rfl

/-- A name that is well formed up to the line break at its end. -/
theorem type_names_are_dashed_words_line : NameFault "target-os\n" ∧
    typeNameProblem? "target-os\n" = some (.invalidTypeName "target-os\n") := by
  have hfault : NameFault "target-os\n" := .lineBreak "target-os" (by decide)
  exact ⟨hfault, (type_names_are_dashed_words "target-os\n").2.2.2.2.2 hfault⟩

end BuildVocabulary

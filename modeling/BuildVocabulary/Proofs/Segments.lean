import BuildVocabulary.Text.Case
import BuildVocabulary.Text.Segments
import Mathlib.Data.List.Basic
import Mathlib.Data.List.Forall2

/-!
# Pieces of separated text

How a text is cut at a separator, and how it is put together again.

* `pieces_append_separator`: a separator cuts a text in two, whatever stands on its sides;
* `append_flatMap_pieces`, `pieces_append_flatMap`: the pieces of a text are words without
  separators that make it up with a separator before each but the first;
* `exists_mem_pieces_iff`: every character but the separator lies in a piece;
* `pieces_map`: the pieces of a text whose characters are changed one by one;
* `SameName.segments`, `SameName.joined`: texts equal ignoring case have segments equal ignoring
  case, and the other way round.
-/

namespace BuildVocabulary

variable {separator c : Char} {cs ds w : List Char} {ws : List (List Char)}

/-! ## One character more -/

theorem exists_pieces_eq_cons (separator : Char) (cs : List Char) :
    ∃ w ws, pieces separator cs = w :: ws :=
  List.exists_cons_of_ne_nil (pieces_ne_nil separator cs)

theorem pieces_separator_cons : pieces separator (separator :: cs) = [] :: pieces separator cs := by
  rw [pieces, if_pos rfl]

theorem pieces_cons (hc : c ≠ separator) (h : pieces separator cs = w :: ws) :
    pieces separator (c :: cs) = (c :: w) :: ws := by
  rw [pieces, if_neg hc, h]

/-! ## Putting together -/

/-- A separator cuts a text in two. -/
theorem pieces_append_separator (cs ds : List Char) :
    pieces separator (cs ++ separator :: ds) = pieces separator cs ++ pieces separator ds := by
  induction cs with
  | nil => exact pieces_separator_cons
  | cons c cs ih =>
    by_cases hc : c = separator
    · subst hc
      rw [List.cons_append, pieces_separator_cons, pieces_separator_cons, ih, List.cons_append]
    · obtain ⟨w, ws, h⟩ := exists_pieces_eq_cons separator cs
      rw [h, List.cons_append] at ih
      rw [List.cons_append, pieces_cons hc ih, pieces_cons hc h, List.cons_append]

theorem pieces_of_notMem (h : separator ∉ w) : pieces separator w = [w] := by
  induction w with
  | nil => rfl
  | cons c w ih =>
    rw [List.mem_cons, not_or] at h
    exact pieces_cons (Ne.symm h.1) (ih h.2)

theorem notMem_of_mem_pieces (h : w ∈ pieces separator cs) : separator ∉ w := by
  induction cs generalizing w with
  | nil =>
    rw [pieces, List.mem_singleton] at h
    exact h ▸ List.not_mem_nil
  | cons c cs ih =>
    by_cases hc : c = separator
    · subst hc
      rw [pieces_separator_cons, List.mem_cons] at h
      rcases h with rfl | h
      · exact List.not_mem_nil
      · exact ih h
    · obtain ⟨v, ws, hv⟩ := exists_pieces_eq_cons separator cs
      rw [hv] at ih
      rw [pieces_cons hc hv, List.mem_cons] at h
      rcases h with rfl | h
      · rw [List.mem_cons, not_or]
        exact ⟨Ne.symm hc, ih List.mem_cons_self⟩
      · exact ih (List.mem_cons_of_mem v h)

/-- A text is made up of its pieces, with a separator before each but the first. -/
theorem append_flatMap_pieces (h : pieces separator cs = w :: ws) :
    w ++ ws.flatMap (separator :: ·) = cs := by
  induction cs generalizing w ws with
  | nil =>
    cases h
    rfl
  | cons c cs ih =>
    obtain ⟨v, vs, hv⟩ := exists_pieces_eq_cons separator cs
    by_cases hc : c = separator
    · subst hc
      rw [pieces_separator_cons, hv] at h
      cases h
      rw [List.nil_append, List.flatMap_cons, List.cons_append, ih hv]
    · rw [pieces_cons hc hv] at h
      cases h
      rw [List.cons_append, ih hv]

theorem pieces_append_flatMap (hw : separator ∉ w) (hws : ∀ v ∈ ws, separator ∉ v) :
    pieces separator (w ++ ws.flatMap (separator :: ·)) = w :: ws := by
  induction ws generalizing w with
  | nil => rw [List.flatMap_nil, List.append_nil, pieces_of_notMem hw]
  | cons v vs ih =>
    obtain ⟨hv, hvs⟩ := List.forall_mem_cons.mp hws
    rw [List.flatMap_cons, List.cons_append, pieces_append_separator, pieces_of_notMem hw,
      ih hv hvs, List.singleton_append]

/-! ## Characters -/

/-- No character is lost but the separators. -/
theorem exists_mem_pieces_iff :
    (∃ w ∈ pieces separator cs, c ∈ w) ↔ c ∈ cs ∧ c ≠ separator := by
  obtain ⟨v, vs, h⟩ := exists_pieces_eq_cons separator cs
  have hcs := append_flatMap_pieces h
  constructor
  · rintro ⟨w, hw, hc⟩
    refine ⟨?_, fun hsep => notMem_of_mem_pieces hw (hsep ▸ hc)⟩
    rw [h, List.mem_cons] at hw
    rw [← hcs, List.mem_append, List.mem_flatMap]
    rcases hw with rfl | hw
    · exact .inl hc
    · exact .inr ⟨w, hw, List.mem_cons_of_mem separator hc⟩
  · rintro ⟨hc, hne⟩
    rw [← hcs, List.mem_append, List.mem_flatMap] at hc
    rw [h]
    rcases hc with hc | ⟨w, hw, hc⟩
    · exact ⟨v, List.mem_cons_self, hc⟩
    · exact ⟨w, List.mem_cons_of_mem v hw, (List.mem_cons.mp hc).resolve_left hne⟩

/-- Changing characters keeps the pieces, if it makes and removes no separator. -/
theorem pieces_map {f : Char → Char} (hf : ∀ c, f c = separator ↔ c = separator) (cs : List Char) :
    pieces separator (cs.map f) = (pieces separator cs).map (List.map f) := by
  induction cs with
  | nil => rfl
  | cons c cs ih =>
    by_cases hc : c = separator
    · subst hc
      rw [List.map_cons, (hf c).mpr rfl, pieces_separator_cons, pieces_separator_cons, ih,
        List.map_cons, List.map_nil]
    · obtain ⟨w, ws, h⟩ := exists_pieces_eq_cons separator cs
      rw [h, List.map_cons] at ih
      rw [List.map_cons, pieces_cons (mt (hf c).mp hc) ih, pieces_cons hc h, List.map_cons,
        List.map_cons]

/-! ## Letters -/

theorem toNat_lt_of_isAlphanum (h : c.isAlphanum = true) : c.toNat < 128 := by
  unfold Char.isAlphanum Char.isAlpha Char.isUpper Char.isLower Char.isDigit at h
  simp only [Bool.or_eq_true, Bool.and_eq_true, decide_eq_true_eq] at h
  have hz : c.val ≤ 'z'.val := by
    rcases h with (⟨-, h⟩ | ⟨-, h⟩) | ⟨-, h⟩
    · exact UInt32.le_trans h (by decide)
    · exact h
    · exact UInt32.le_trans h (by decide)
  exact Nat.lt_of_le_of_lt (UInt32.le_iff_toNat_le.mp hz) (by decide)

theorem toLower_eq_iff {d : Char} (hd : d.isAlpha = false) : c.toLower = d ↔ c = d := by
  unfold Char.toLower
  split
  next h =>
    -- both spellings of a letter are letters
    simp only [UInt32.le_iff_toNat_le, ge_iff_le] at h
    unfold Char.isAlpha Char.isUpper Char.isLower at hd
    simp only [UInt32.le_iff_toNat_le, ge_iff_le] at hd
    constructor
    · rintro rfl
      simp at h hd
      omega
    · rintro rfl
      simp at h hd
      omega
  next => rfl

theorem fold_append (s t : String) : fold (s ++ t) = fold s ++ fold t := by
  rw [← String.toList_inj]
  simp only [toList_fold, String.toList_append, List.map_append]

theorem fold_ofList (cs : List Char) :
    fold (String.ofList cs) = String.ofList (cs.map Char.toLower) := by
  rw [fold, String.toList_ofList]

theorem segments_fold (s : String) : segments (fold s) = (segments s).map fold := by
  have hdash : ∀ c : Char, c.toLower = '-' ↔ c = '-' := fun c => toLower_eq_iff (by decide)
  rw [segments, segments, toList_fold, pieces_map hdash, List.map_map, List.map_map]
  exact List.map_congr_left fun w _ => (fold_ofList w).symm

theorem fold_joined (ss : List String) : fold (joined ss) = joined (ss.map fold) := by
  unfold joined
  induction ss with
  | nil => rfl
  | cons s ss ih =>
    cases ss with
    | nil => simp
    | cons t ts =>
      rw [List.map_cons] at ih
      rw [String.intercalate_cons_cons, List.map_cons, List.map_cons,
        String.intercalate_cons_cons, fold_append, fold_append, ih]
      rfl

theorem forall₂_sameName_iff {ss ts : List String} :
    List.Forall₂ SameName ss ts ↔ ss.map fold = ts.map fold := by
  rw [← List.forall₂_eq_eq_eq, List.forall₂_map_left_iff, List.forall₂_map_right_iff]
  rfl

namespace SameName

variable {s t s' t' : String} {ss ts : List String}

theorem append (h : SameName s t) (h' : SameName s' t') : SameName (s ++ s') (t ++ t') := by
  have hfold : fold s = fold t := h
  have hfold' : fold s' = fold t' := h'
  rw [SameName, fold_append, fold_append, hfold, hfold']

theorem segments (h : SameName s t) : List.Forall₂ SameName (segments s) (segments t) := by
  rw [forall₂_sameName_iff, ← segments_fold, ← segments_fold, show fold s = fold t from h]

theorem joined (h : List.Forall₂ SameName ss ts) : SameName (joined ss) (joined ts) := by
  rw [SameName, fold_joined, fold_joined, forall₂_sameName_iff.mp h]

end SameName

end BuildVocabulary

/-!
# Separated text

Type tokens and custom type names are made of segments separated by dashes, paths of names separated
by slashes. `pieces` cuts a text at every separator. `segments` does so at dashes, and `joined` puts
dashes back between segments.

* `pieces_ne_nil`: a text has at least one piece, if only an empty one;
* `intercalate_pieces`, `joined_segments`: joining the pieces of a text gives the text again.
-/

namespace BuildVocabulary

/-- The pieces between separators; a text without separators is its only piece. -/
def pieces (separator : Char) : List Char → List (List Char)
  | [] => [[]]
  | c :: cs =>
    if c = separator then [] :: pieces separator cs
    else
      match pieces separator cs with
      | [] => [[c]]
      | s :: ss => (c :: s) :: ss

/-- The segments of a text: what stands between its dashes, empty segments included. -/
def segments (s : String) : List String := (pieces '-' s.toList).map String.ofList

/-- The segments with one dash between neighbours. -/
def joined (ss : List String) : String := "-".intercalate ss

theorem pieces_ne_nil (separator : Char) (cs : List Char) : pieces separator cs ≠ [] := by
  cases cs with
  | nil => simp [pieces]
  | cons c cs =>
    rw [pieces]
    split
    · simp
    · split <;> simp

theorem segments_ne_nil (s : String) : segments s ≠ [] := by
  simp [segments, pieces_ne_nil]

theorem intercalate_pieces (separator : Char) (cs : List Char) :
    [separator].intercalate (pieces separator cs) = cs := by
  induction cs with
  | nil => simp [pieces]
  | cons c cs ih =>
    rw [pieces]
    split
    next h =>
      subst h
      obtain ⟨s, ss, h⟩ := List.exists_cons_of_ne_nil (pieces_ne_nil c cs)
      rw [h, List.intercalate] at ih ⊢
      simpa using ih
    next =>
      split
      next h => exact absurd h (pieces_ne_nil separator cs)
      next s ss h =>
        rw [h, List.intercalate] at ih
        cases ss <;> simpa [List.intercalate] using ih

theorem joined_segments (s : String) : joined (segments s) = s := by
  rw [← String.toList_inj]
  simp [joined, segments, String.toList_intercalate, intercalate_pieces, Function.comp_def]

end BuildVocabulary

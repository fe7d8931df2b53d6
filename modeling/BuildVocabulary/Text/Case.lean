/-!
# Names up to ASCII case

Every name of a vocabulary is compared ignoring the case of ASCII letters. `fold` lowers these
letters and keeps every other character; two names are the same name when they fold to one text.

* `fold_fold`: folding twice is folding once;
* `SameName` is a decidable equivalence.
-/

namespace BuildVocabulary

/-- The text with its ASCII capitals lowered; every other character is kept. -/
def fold (s : String) : String := String.ofList (s.toList.map Char.toLower)

/-- Equality ignoring ASCII case. -/
def SameName (a b : String) : Prop := fold a = fold b

instance (a b : String) : Decidable (SameName a b) := inferInstanceAs (Decidable (fold a = fold b))

theorem toList_fold (s : String) : (fold s).toList = s.toList.map Char.toLower :=
  String.toList_ofList

theorem toLower_toLower (c : Char) : c.toLower.toLower = c.toLower := by
  unfold Char.toLower
  split
  · split
    next h h' =>
      simp only [UInt32.le_iff_toNat_le, ge_iff_le] at h h'
      simp at h h'
      omega
    next => rfl
  · rfl

theorem fold_fold (s : String) : fold (fold s) = fold s := by
  rw [← String.toList_inj]
  simp only [toList_fold, List.map_map]
  exact List.map_congr_left fun c _ => toLower_toLower c

namespace SameName

variable {a b c : String}

theorem refl (a : String) : SameName a a := rfl

theorem symm (h : SameName a b) : SameName b a := Eq.symm h

theorem trans (h : SameName a b) (h' : SameName b c) : SameName a c := Eq.trans h h'

end SameName

end BuildVocabulary

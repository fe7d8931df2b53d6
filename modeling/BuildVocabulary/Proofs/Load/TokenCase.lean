import BuildVocabulary.Proofs.Load.Reference
import BuildVocabulary.Proofs.Segments

/-!
# The case of type tokens

Two tokens that are equal ignoring case stand for the same kind and the same custom type, and the
same is said about them, each in its own spelling. Every part of a token is looked up ignoring case:
base kinds, modifiers, and the names that leading segments of a reference make up.

* `Resolve.CaseBlind`: the same value, with messages that are equal ignoring case;
* `caseBlind_resolveModifiers`, `longest?_rel`, `peel_rel`: the parts of a token;
* **`token_case_insensitive`**: whole tokens.
-/

namespace BuildVocabulary

open Json (Location)

/-- Diagnostics of one severity whose messages are equal ignoring case. -/
def Diagnostic.SameUpToCase (d e : Diagnostic) : Prop :=
  d.severity = e.severity ∧ SameName d.message e.message

/-! ## Results up to the case of messages -/

namespace Resolve

variable {α β : Type} {r r' : Resolve α} {f g : Finding}

/-- Findings whose diagnostics are equal up to case. -/
def SameFinding (f g : Finding) : Prop := f.diagnostic.SameUpToCase g.diagnostic

/-- Both parts give the same value, and their findings are equal one by one up to case. -/
def CaseBlind (r r' : Resolve α) : Prop :=
  ∃ a fs gs, r = .ok a fs ∧ r' = .ok a gs ∧ List.Forall₂ SameFinding fs gs

namespace CaseBlind

theorem pure (a : α) : (Pure.pure a : Resolve α).CaseBlind (Pure.pure a) :=
  ⟨a, [], [], rfl, rfl, .nil⟩

theorem singleton (a : α) (h : SameFinding f g) : (ok a [f]).CaseBlind (ok a [g]) :=
  ⟨a, [f], [g], rfl, rfl, .cons h .nil⟩

theorem bind {k k' : α → Resolve β} (h : r.CaseBlind r') (hk : ∀ a, (k a).CaseBlind (k' a)) :
    (r >>= k).CaseBlind (r' >>= k') := by
  obtain ⟨a, fs, gs, rfl, rfl, hfg⟩ := h
  obtain ⟨b, fs', gs', hb, hb', hfg'⟩ := hk a
  refine ⟨b, fs ++ fs', gs ++ gs', ?_, ?_, List.rel_append hfg hfg'⟩
  · rw [ok_bind, hb, after_ok]
  · rw [ok_bind, hb', after_ok]

theorem yields (h : r.CaseBlind r') : ∃ a ds es, r.Yields a ds ∧ r'.Yields a es ∧
    List.Forall₂ Diagnostic.SameUpToCase ds es := by
  obtain ⟨a, fs, gs, hr, hr', hfg⟩ := h
  refine ⟨a, _, _, ⟨fs, hr, rfl⟩, ⟨gs, hr', rfl⟩, ?_⟩
  rwa [List.forall₂_map_left_iff, List.forall₂_map_right_iff]

end CaseBlind

end Resolve

open Resolve (SameFinding)

/-! ## Parts of a token -/

section Parts

variable {registry : Registry} {here : Location} {s t : String} {ss ts : List String}

theorem BaseKind.ofToken?_congr (h : SameName s t) : ofToken? s = ofToken? t := by
  rw [ofToken?, ofToken?, show fold s = fold t from h]

theorem Modifiers.ofToken?_congr (h : SameName s t) : ofToken? s = ofToken? t := by
  rw [ofToken?, ofToken?, show fold s = fold t from h]

theorem SameName.eq_empty_iff (h : SameName s t) : s = "" ↔ t = "" := by
  have hfold : s.toList.map Char.toLower = t.toList.map Char.toLower := by
    rw [← toList_fold, ← toList_fold, show fold s = fold t from h]
  rw [← String.toList_eq_nil_iff, ← String.toList_eq_nil_iff,
    ← List.map_eq_nil_iff (l := s.toList), hfold, List.map_eq_nil_iff]

/-- A message with a name in the middle. -/
theorem SameName.quoted (before after : String) (h : SameName s t) :
    SameName (before ++ s ++ after) (before ++ t ++ after) :=
  ((SameName.refl before).append h).append (.refl after)

theorem sameFinding_unknownModifier (h : SameName s t) :
    SameFinding (.unknownModifier s here) (.unknownModifier t here) :=
  ⟨rfl, ((h.quoted _ _).append (.refl _)).append (.refl _)⟩

theorem sameFinding_unknownKind (h : SameName s t) :
    SameFinding (.unknownKind s here) (.unknownKind t here) :=
  ⟨rfl, ((h.quoted _ _).append (.refl _)).append (.refl _)⟩

theorem sameFinding_missingType (h : SameName s t) :
    SameFinding (missingType s here) (missingType t here) := by
  have hempty : s.isEmpty = t.isEmpty := by
    rw [Bool.eq_iff_iff, String.isEmpty_iff, String.isEmpty_iff, h.eq_empty_iff]
  unfold missingType
  rw [hempty]
  split_ifs
  · exact ⟨rfl, .refl _⟩
  · exact ⟨rfl, ((h.quoted _ _).append (.refl _)).append (.refl _)⟩

theorem caseBlind_resolveBase (h : SameName s t) :
    (resolveBase here s).CaseBlind (resolveBase here t) := by
  unfold resolveBase
  rw [BaseKind.ofToken?_congr h]
  cases BaseKind.ofToken? t with
  | some b => exact .pure b
  | none => exact .singleton _ (sameFinding_unknownKind h)

theorem caseBlind_resolveModifiers (h : List.Forall₂ SameName ss ts) :
    (resolveModifiers here ss).CaseBlind (resolveModifiers here ts) := by
  induction h with
  | nil => exact .pure _
  | @cons s t ss ts hs _ ih =>
    rw [resolveModifiers, resolveModifiers, Modifiers.ofToken?_congr hs]
    cases Modifiers.ofToken? t with
    | some m => exact ih.bind fun ms => .pure _
    | none => exact .bind (.singleton _ (sameFinding_unknownModifier hs)) fun _ => ih

theorem longest?_rel (registry : Registry) (h : List.Forall₂ SameName ss ts) (n : ℕ) :
    Option.Rel (fun x y => x.1 = y.1 ∧ List.Forall₂ SameName x.2 y.2)
      (longest? registry ss n) (longest? registry ts n) := by
  induction n with
  | zero => exact .none
  | succ n ih =>
    rw [longest?, longest?, NameMap.find?_congr (.joined (List.forall₂_take (n + 1) h))]
    cases registry.find? (joined (ts.take (n + 1))) with
    | some t => exact .some ⟨rfl, List.forall₂_drop (n + 1) h⟩
    | none => exact ih

theorem peel_rel (h : List.Forall₂ SameName ss ts) :
    (peel ss).1 = (peel ts).1 ∧ List.Forall₂ SameName (peel ss).2 (peel ts).2 := by
  induction h with
  | nil => exact ⟨rfl, .nil⟩
  | @cons s t ss ts hs hss ih =>
    cases hss with
    | nil => exact ⟨rfl, .cons hs .nil⟩
    | cons hs' hss' =>
      rw [peel, peel, Modifiers.ofToken?_congr hs]
      cases Modifiers.ofToken? t with
      | some m => exact ⟨congrArg m.union ih.1, ih.2⟩
      | none => exact ⟨rfl, .cons hs (.cons hs' hss')⟩

end Parts

/-! ## Whole tokens -/

section Tokens

variable {registry : Registry} {here : Location} {s t : String} {cs : List Char}

theorem caseBlind_resolveReference (h : SameName s t) :
    (resolveReference registry here s).CaseBlind (resolveReference registry here t) := by
  have hsegments := h.segments
  have hlongest := longest?_rel registry hsegments (segments s).length
  nth_rewrite 2 [hsegments.length_eq] at hlongest
  simp only [resolveReference]
  generalize longest? registry (segments s) (segments s).length = found at hlongest ⊢
  generalize longest? registry (segments t) (segments t).length = found' at hlongest ⊢
  cases hlongest with
  | none =>
    -- neither spelling begins with a registered name
    obtain ⟨hmodifiers, hname⟩ := peel_rel (List.forall₂_reverse_iff.mpr hsegments)
    rw [hmodifiers]
    exact .singleton _ (sameFinding_missingType (.joined (List.forall₂_reverse_iff.mpr hname)))
  | @some found found' hfound =>
    obtain ⟨u, rest⟩ := found
    obtain ⟨u', rest'⟩ := found'
    obtain ⟨rfl, hrest⟩ : u = u' ∧ List.Forall₂ SameName rest rest' := hfound
    exact (caseBlind_resolveModifiers hrest).bind fun ms => .pure _

theorem toList_of_sameName_reference (h : SameName s t) (hs : s.toList = '@' :: cs) :
    ∃ ds, t.toList = '@' :: ds ∧ SameName (String.ofList cs) (String.ofList ds) := by
  have hfold : t.toList.map Char.toLower = '@' :: cs.map Char.toLower := by
    rw [← toList_fold, ← show fold s = fold t from h, toList_fold, hs]
    rfl
  obtain ⟨c, ds, ht, hc, hds⟩ := List.map_eq_cons_iff.mp hfold
  refine ⟨ds, ?_, ?_⟩
  · rw [ht, (toLower_eq_iff (by decide)).mp hc]
  · rw [SameName, fold_ofList, fold_ofList, hds]

theorem resolveToken_of_base (hs : ∀ cs, s.toList ≠ '@' :: cs) {base : String} {ss : List String}
    (hsegments : segments s = base :: ss) : resolveToken registry here s =
      resolveBase here base >>= fun b => resolveModifiers here ss >>= fun ms =>
        pure ⟨⟨b, ms⟩, none⟩ := by
  unfold resolveToken
  split
  next cs hcs => exact absurd hcs (hs cs)
  next =>
    rw [hsegments]

theorem caseBlind_resolveToken (h : SameName s t) :
    (resolveToken registry here s).CaseBlind (resolveToken registry here t) := by
  by_cases hat : ∃ cs, s.toList = '@' :: cs
  · obtain ⟨cs, hs⟩ := hat
    obtain ⟨ds, ht, hsame⟩ := toList_of_sameName_reference h hs
    unfold resolveToken
    rw [hs, ht]
    exact caseBlind_resolveReference hsame
  · have hs : ∀ cs, s.toList ≠ '@' :: cs := not_exists.mp hat
    have ht : ∀ cs, t.toList ≠ '@' :: cs := by
      intro cs ht
      obtain ⟨ds, hds, -⟩ := toList_of_sameName_reference h.symm ht
      exact hs ds hds
    have hsegments := h.segments
    obtain ⟨base, ss, hss⟩ := List.exists_cons_of_ne_nil (segments_ne_nil s)
    obtain ⟨base', ts, hts⟩ := List.exists_cons_of_ne_nil (segments_ne_nil t)
    rw [hss, hts, List.forall₂_cons] at hsegments
    rw [resolveToken_of_base hs hss, resolveToken_of_base ht hts]
    exact (caseBlind_resolveBase hsegments.1).bind fun b =>
      (caseBlind_resolveModifiers hsegments.2).bind fun ms => .pure _

end Tokens

/-- **Case makes no difference to type tokens.** Two tokens that are equal ignoring case always give
the same kind and the same custom type. They give equally many diagnostics, of the same severities
in the same order, and the messages are equal ignoring case. -/
theorem token_case_insensitive (registry : Registry) (here : Location) {s t : String}
    (h : SameName s t) : ∃ resolved ds es, (resolveToken registry here s).Yields resolved ds ∧
      (resolveToken registry here t).Yields resolved es ∧
      List.Forall₂ Diagnostic.SameUpToCase ds es :=
  (caseBlind_resolveToken h).yields

/-- A registered name with dashes, a modifier and a word that is none. -/
theorem token_case_insensitive_paint :
    SameName "@COLOR-list-Const-Matt" "@Color-LIST-const-matt" ∧
    ∃ resolved ds es,
      (resolveToken paintRegistry [.key "items"] "@COLOR-list-Const-Matt").Yields resolved ds ∧
      (resolveToken paintRegistry [.key "items"] "@Color-LIST-const-matt").Yields resolved es ∧
      List.Forall₂ Diagnostic.SameUpToCase ds es := by
  have hsame : SameName "@COLOR-list-Const-Matt" "@Color-LIST-const-matt" := by decide +kernel
  exact ⟨hsame, token_case_insensitive paintRegistry [.key "items"] hsame⟩

end BuildVocabulary

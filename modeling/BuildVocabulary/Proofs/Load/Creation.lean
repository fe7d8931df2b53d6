import BuildVocabulary.Proofs.Load.Group
import BuildVocabulary.Proofs.Load.Shape
import BuildVocabulary.Proofs.Repetition

/-!
# Items that groups create

A metadata group creates the items that it is the first to mention. Nothing else that groups do
touches the names of items or their order.

* `mentions`: the names of items that a group lists;
* `names_of_applyGroup`: the names of items after one group;
* **`names_of_applyGroups`**: after all groups of a section.
-/

namespace BuildVocabulary

open Json (Location Members)

/-! ## Names that are mentioned -/

/-- The text of a string. -/
def Json.text? : Json → Option String
  | .text s => some s
  | _ => none

/-- The names that a value lists: a single one, or those of an array. -/
def Json.listed : Json → List String
  | .text s => [s]
  | .array vs => vs.filterMap Json.text?
  | _ => []

/-- The names of items that a group lists. -/
def mentions : Json → List String
  | .object ms =>
    match Members.find? ms appliesTo with
    | some v => v.listed
    | none => []
  | _ => []

theorem listed_of_requireStrings {here : Location} {v : Json} {names : List String}
    (h : Json.requireStrings here v = .ok names) : v.listed = names := by
  cases v with
  | text s => exact Except.ok.inj h
  | array vs =>
    obtain rfl := Json.requireTexts_eq_ok.mp h
    rw [Json.listed, List.filterMap_map]
    exact List.filterMap_some
  | _ => cases h

/-! ## Names of items -/

section Names

variable {P : Finding → Prop} {registry : Registry} {here : Location} {items items' : NameMap Item}

theorem named_names {α : Type} (m : NameMap α) (name : String) :
    named m.names name = m.contains name := by
  rw [Bool.eq_iff_iff, named_iff_mem_map_fold, NameMap.map_fold_names,
    NameMap.contains_iff_mem_keys]

/-- Attaching leaves every name where it is. -/
theorem names_of_distribute {first : String} {others : List String} {decls : List Metadata}
    (h : (distribute first others decls items).Gives P items') : items'.names = items.names := by
  rw [eq_of_distribute h, attachTo, NameMap.names_modify]
  clear h
  induction others generalizing items with
  | nil => rfl
  | cons o others ih => rw [List.foldl_cons, ih, attachTo, NameMap.names_modify]

/-- Names that are listed are put behind those that were seen before them. -/
theorem names_ensureItems {seen : List String} (h : items.names = firsts seen)
    (names : List String) : (ensureItems names items).names = firsts (seen ++ names) := by
  unfold ensureItems
  induction names generalizing items seen with
  | nil => rw [List.foldl_nil, h, List.append_nil]
  | cons name names ih =>
    have hstep : (items.ensure name { name }).names = firsts (seen ++ [name]) := by
      rw [NameMap.names_ensure, ← named_names, h, named_firsts, firsts_concat]
      split_ifs
      · rw [List.append_nil]
      · rfl
    rw [List.foldl_cons, ih hstep, List.append_assoc, List.singleton_append]

theorem names_of_applyGroup {seen : List String} {v : Json}
    (h : (applyGroup registry here items v).Gives P items') (hseen : items.names = firsts seen) :
    items'.names = firsts (seen ++ mentions v) := by
  simp only [applyGroup, Resolve.gives_bind, Resolve.gives_lift, Json.requireObject_eq_ok] at h
  obtain ⟨ms, rfl, h⟩ := h
  cases hlist : Members.find? ms appliesTo with
  | none =>
    have hmentions : mentions (.object ms) = [] := by rw [mentions, hlist]
    simp only [hlist, Resolve.gives_ok] at h
    rw [hmentions, List.append_nil, ← h.1, hseen]
  | some v =>
    simp only [hlist, Resolve.gives_bind, Resolve.gives_lift] at h
    obtain ⟨names, hnames, h⟩ := h
    have hmentions : mentions (.object ms) = names := by
      simp only [mentions, hlist]
      exact listed_of_requireStrings hnames
    rw [hmentions]
    cases names with
    | nil =>
      simp only [Resolve.gives_ok] at h
      rw [List.append_nil, ← h.1, hseen]
    | cons name names =>
      simp only [Resolve.gives_bind] at h
      obtain ⟨decls, -, h⟩ := h
      rw [names_of_distribute h, names_ensureItems hseen]

/-- **The items after all groups of a section are those before and those that groups mention, in
the order of their first names.** -/
theorem names_of_applyGroups {seen : List String} {n : ℕ} {vs : List Json}
    (h : (applyGroups registry here n items vs).Gives P items')
    (hseen : items.names = firsts seen) : items'.names = firsts (seen ++ vs.flatMap mentions) := by
  induction vs generalizing items seen n with
  | nil =>
    rw [applyGroups, Resolve.gives_pure] at h
    rw [← h, hseen, List.flatMap_nil, List.append_nil]
  | cons v vs ih =>
    rw [applyGroups, Resolve.gives_bind] at h
    obtain ⟨between, hstep, h⟩ := h
    rw [ih h (names_of_applyGroup hstep hseen), List.flatMap_cons, List.append_assoc]

end Names

end BuildVocabulary

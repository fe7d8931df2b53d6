import BuildVocabulary.Merge
import BuildVocabulary.Proofs.NameMap.Layers

/-!
# Merged models as layers

Each map of a merged model is the map of the overlay laid over that of the base. Items are combined
where they stand, all other entries are kept or replaced as a whole; the names come out in one
order for both.

* `lays_overlay`, `lays_overlayItems`: the two ways in which maps of a model are laid over;
* `stored?_overlayItems`, `Item.stored?_metadata_union`: the entries of items and of their metadata;
* `find?_merge_first`, `find?_merge_last`, `find?_merge_union`: who wins a name;
* `keys_merge`: the names of a merged model;
* `overlayImports_eq`: imports are added in order of first appearance.
-/

namespace BuildVocabulary

variable {α : Type} {s : Strategy}

/-! ## Entries of one name -/

/-- The entry that stands for two entries of one name, where they are not combined. -/
def Strategy.choose (s : Strategy) (base overlay : String × α) : String × α :=
  if s = .preferBase then base else overlay

theorem lays_overlay (s : Strategy) :
    NameMap.Lays (α := α) s.choose fun m e =>
      if s = .preferBase ∧ m.contains e.1 then m else m.insert e.1 e.2 where
  keys_step m e := by
    split_ifs with h
    · exact NameMap.keys_eq_addNew_of_contains h.2
    · exact NameMap.keys_insert_eq_addNew e
  stored?_step m e n := by
    by_cases hn : SameName e.1 n
    · rw [if_pos hn]
      split_ifs with h
      · obtain ⟨d, hd⟩ := NameMap.exists_stored?_of_contains h.2
        rw [← NameMap.stored?_congr hn, hd, Option.merge_some_some, Strategy.choose, if_pos h.1]
      · rw [NameMap.stored?_insert, if_pos hn]
        by_cases hs : s = .preferBase
        · -- the base would win, but has no entry of this name
          have hnone := NameMap.stored?_eq_none_of_not_contains fun hc => h ⟨hs, hc⟩
          rw [← NameMap.stored?_congr hn, hnone, Option.merge_none_left]
        · cases m.stored? n with
          | none => rfl
          | some d => rw [Option.merge_some_some, Strategy.choose, if_neg hs]
    · rw [if_neg hn]
      split_ifs
      · rfl
      · rw [NameMap.stored?_insert, if_neg hn]

/-- Items are resolved under the spelling of the base. -/
theorem lays_overlayItems (s : Strategy) :
    NameMap.Lays (fun d e : String × Item => (d.1, d.2.resolve s e.2)) fun m e =>
      if m.contains e.1 then m.modify e.1 fun i => i.resolve s e.2 else m.insert e.1 e.2 where
  keys_step m e := by
    split_ifs with h
    · rw [NameMap.keys_modify]
      exact NameMap.keys_eq_addNew_of_contains h
    · exact NameMap.keys_insert_eq_addNew e
  stored?_step m e n := by
    split_ifs with h hn hn
    · obtain ⟨d, hd⟩ := NameMap.exists_stored?_of_contains h
      rw [NameMap.stored?_modify, if_pos hn, ← NameMap.stored?_congr hn, hd, Option.map_some,
        Option.merge_some_some]
    · rw [NameMap.stored?_modify, if_neg hn]
    · have hnone := NameMap.stored?_eq_none_of_not_contains h
      rw [NameMap.stored?_insert, if_pos hn, ← NameMap.stored?_congr hn, hnone,
        Option.merge_none_left]
    · rw [NameMap.stored?_insert, if_neg hn]

/-- The entry of a merged map of items, with the spelling of the base. -/
theorem stored?_overlayItems (s : Strategy) (base layer : NameMap Item) (name : String) :
    (overlayItems s base layer).stored? name =
      Option.merge (fun d e => (d.1, d.2.resolve s e.2)) (base.stored? name) (layer.stored? name) :=
  (lays_overlayItems s).stored?_foldl base layer name

/-- Metadata of the overlay wins, under its own spelling. -/
theorem Item.stored?_metadata_union (i j : Item) (name : String) :
    (i.union j).metadata.stored? name =
      (j.metadata.stored? name).or (i.metadata.stored? name) := by
  have hlaid : (i.union j).metadata.stored? name =
      Option.merge (fun _ e => e) (i.metadata.stored? name) (j.metadata.stored? name) :=
    NameMap.lays_insert.stored?_foldl i.metadata j.metadata name
  rw [hlaid]
  cases i.metadata.stored? name <;> cases j.metadata.stored? name <;> rfl

theorem overlayImports_eq (base layer : List String) :
    overlayImports base layer = layer.foldl addNew base := by
  unfold overlayImports
  congr 1
  funext is i
  rw [addNew, List.contains_eq_mem]
  simp only [decide_eq_true_eq]

/-! ## Who wins a name -/

namespace NameMap

variable {base layer : NameMap α} {name : String}

theorem find?_overlay :
    (base.overlay s layer).find? name =
      Option.merge (fun a b => if s = .preferBase then a else b) (base.find? name)
        (layer.find? name) := by
  refine (lays_overlay s).find?_foldl (fun d e => ?_) base layer name
  unfold Strategy.choose
  split_ifs <;> rfl

theorem find?_overlay_first :
    (base.overlay .preferBase layer).find? name = (base.find? name).or (layer.find? name) := by
  rw [find?_overlay]
  cases base.find? name <;> cases layer.find? name <;> rfl

theorem find?_overlay_last (hs : s ≠ .preferBase) :
    (base.overlay s layer).find? name = (layer.find? name).or (base.find? name) := by
  rw [find?_overlay]
  cases base.find? name <;> cases layer.find? name <;> simp [hs]

theorem keys_overlay : (base.overlay s layer).keys = layer.keys.foldl addNew base.keys :=
  (lays_overlay s).keys_foldl base layer

end NameMap

theorem find?_overlayItems {base layer : NameMap Item} {name : String} :
    (overlayItems s base layer).find? name =
      Option.merge (Item.resolve s) (base.find? name) (layer.find? name) :=
  (lays_overlayItems s).find?_foldl (fun _ _ => rfl) base layer name

theorem keys_overlayItems {base layer : NameMap Item} :
    (overlayItems s base layer).keys = layer.keys.foldl addNew base.keys :=
  (lays_overlayItems s).keys_foldl base layer

namespace Model

variable {base layer : Model} {sec : Section} {name : String}

/-- The folded names of a section, in order. -/
def keys (m : Model) : Section → List String
  | .properties => m.properties.keys
  | .items => m.items.keys
  | .tasks => m.tasks.keys
  | .targets => m.targets.keys

theorem isSome_find?_iff {m : Model} : (m.find? sec name).isSome = true ↔ fold name ∈ m.keys sec := by
  cases sec <;> rw [find?, Option.isSome_map] <;> exact NameMap.isSome_find?_iff_mem_keys

theorem keys_merge :
    (merge s base layer).keys sec = (layer.keys sec).foldl addNew (base.keys sec) := by
  cases sec with
  | items => exact keys_overlayItems
  | properties | tasks | targets => exact NameMap.keys_overlay

/-- Under `preferBase`, the base wins every name. -/
theorem find?_merge_first :
    (merge .preferBase base layer).find? sec name =
      (base.find? sec name).or (layer.find? sec name) := by
  cases sec with
  | items =>
    rw [find?, merge, find?_overlayItems, find?, find?]
    cases base.items.find? name <;> cases layer.items.find? name <;> rfl
  | properties | tasks | targets => rw [find?, merge, NameMap.find?_overlay_first, Option.map_or]; rfl

/-- Under the other strategies the overlay wins, except that `union` combines items. -/
theorem find?_merge_last (hs : s ≠ .preferBase) (hsec : s = .union → sec ≠ .items) :
    (merge s base layer).find? sec name = (layer.find? sec name).or (base.find? sec name) := by
  cases sec with
  | items =>
    have hover : s = .preferOverlay := by
      cases s with
      | preferBase => exact absurd rfl hs
      | preferOverlay => rfl
      | union => exact absurd rfl (hsec rfl)
    subst hover
    rw [find?, merge, find?_overlayItems, find?, find?]
    cases base.items.find? name <;> cases layer.items.find? name <;> rfl
  | properties | tasks | targets =>
    rw [find?, merge, NameMap.find?_overlay_last hs, Option.map_or]
    rfl

theorem find?_merge_union :
    (merge .union base layer).items.find? name =
      Option.merge Item.union (base.items.find? name) (layer.items.find? name) :=
  find?_overlayItems

end Model

end BuildVocabulary

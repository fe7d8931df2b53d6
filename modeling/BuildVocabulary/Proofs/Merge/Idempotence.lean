import BuildVocabulary.Proofs.Merge.Associativity

/-!
# Merging a model again

A model that is merged once more changes nothing, not even the order of names or their spellings:
laid over itself it finds every name with its own entry, and merging is associative. The empty model
is a right unit. Laid under a model it gives the model back with each import once.

* `Item.resolve_self`: an item resolved with itself;
* `Model.merge_self`, `Model.merge_merge_self`: a model merged with itself, and merged again;
* `Model.empty_merge`: a model merged into the empty one;
* **`merge_idempotent`**: these laws together.
-/

namespace BuildVocabulary

/-! ## Maps laid over themselves -/

theorem NameMap.overlay_self {α : Type} (s : Strategy) (m : NameMap α) : m.overlay s m = m := by
  refine (lays_overlay s).foldl_self (fun e => ?_) m
  unfold Strategy.choose
  exact ite_self e

/-- Descriptions fall back to themselves, and all metadata is there already. -/
theorem Item.union_self (i : Item) : i.union i = i := by
  have hmeta := NameMap.lays_insert.foldl_self (fun _ => rfl) i.metadata
  rw [Item.union, hmeta, Option.or_self, Option.or_self]

theorem Item.resolve_self (s : Strategy) (i : Item) : i.resolve s i = i := by
  cases s with
  | preferBase => rfl
  | preferOverlay => rfl
  | union => exact Item.union_self i

theorem overlayItems_self (s : Strategy) (m : NameMap Item) : overlayItems s m m = m := by
  refine (lays_overlayItems s).foldl_self (fun e => ?_) m
  rw [Item.resolve_self]

theorem overlayImports_self (imports : List String) : overlayImports imports imports = imports := by
  rw [overlayImports_eq]
  exact foldl_addNew_of_forall_mem fun _ h => h

/-! ## Models -/

namespace Model

theorem merge_self (s : Strategy) (m : Model) : merge s m m = m := by
  simp only [merge, NameMap.overlay_self, overlayItems_self, overlayImports_self]

/-- A layer is absorbed by a model that it has been merged into last. -/
theorem merge_merge_self (s : Strategy) (base layer : Model) :
    merge s (merge s base layer) layer = merge s base layer := by
  rw [merge_assoc, merge_self]

/-- Into the empty model everything is copied, except that repeated imports are dropped. -/
theorem empty_merge (s : Strategy) (m : Model) :
    merge s {} m = { m with imports := m.imports.eraseDups } := by
  have hoverlay {α : Type} (n : NameMap α) : NameMap.empty.overlay s n = n :=
    (lays_overlay s).foldl_empty n
  have hitems : overlayItems s .empty m.items = m.items := (lays_overlayItems s).foldl_empty m.items
  have himports : overlayImports [] m.imports = m.imports.eraseDups :=
    (overlayImports_eq [] m.imports).trans (foldl_addNew_nil m.imports)
  simp only [merge, hoverlay, hitems, himports]

end Model

/-- **Merging a model again changes nothing.** For every strategy, a model that is merged twice gives
the same as merged once, and merged with itself it gives itself: the same entities in the same order
and spellings, the same metadata of items and the same imports. The empty model is a right unit, and
a left one except that the imports are reduced to their first occurrences. -/
theorem merge_idempotent (s : Strategy) :
    (∀ a b, Model.merge s (Model.merge s a b) b = Model.merge s a b) ∧
    (∀ a, Model.merge s a a = a) ∧
    (∀ a, Model.merge s a {} = a) ∧
    ∀ a, Model.merge s {} a = { a with imports := a.imports.eraseDups } :=
  ⟨Model.merge_merge_self s, Model.merge_self s, Model.merge_empty s, Model.empty_merge s⟩

end BuildVocabulary

import BuildVocabulary.Merge
import BuildVocabulary.Proofs.Validity

/-!
# Merging valid models

Laying a valid model over a valid one gives a valid model, by every strategy. Under `union` three
spellings of one item meet: the key of the base, the name of the overlay, and the owner that the
metadata of the base names. They agree because the overlay is found under the key of the base.

* `NameMap.All.overlay`, `NameMap.All.overlayItems`: what holds of the entries of both maps holds
  of the entries of the result;
* `Item.Coherent.union`, `Item.Settled.union`: combined items;
* **`Model.problems_merge_eq_nil`**: merging and sequences of merges keep validity.
-/

namespace BuildVocabulary

/-! ## Entries of merged maps -/

namespace NameMap.All

variable {α : Type} {Q : String → α → Prop}

theorem overlay {s : Strategy} {base layer : NameMap α} (hb : base.All Q) (ho : layer.All Q) :
    (base.overlay s layer).All Q := by
  unfold NameMap.overlay
  refine List.foldlRecOn layer.toList _ hb fun m hm e he => ?_
  split_ifs
  · exact hm
  · exact All.insert hm (ho e he)

/-- For items, what holds of two entries of one name has to hold of the resolved item, under the
key of the base. -/
theorem overlayItems {Q : String → Item → Prop} {s : Strategy} {base layer : NameMap Item}
    (hb : base.All Q) (ho : layer.All Q)
    (hres : ∀ key i key' j, SameName key key' → Q key i → Q key' j → Q key (i.resolve s j)) :
    (overlayItems s base layer).All Q := by
  unfold BuildVocabulary.overlayItems
  refine List.foldlRecOn layer.toList _ hb fun m hm e he => ?_
  split_ifs
  · exact All.modify hm fun key i hi hs => hres key i e.1 e.2 hs (hm _ hi) (ho e he)
  · exact All.insert hm (ho e he)

end NameMap.All

/-! ## Combined items -/

namespace Item

/-- The metadata of the base names the base item, which has the name of the overlay in another
spelling. -/
theorem Coherent.union {i j : Item} (hi : i.Coherent SameName) (hj : j.Coherent SameName)
    (hname : SameName i.name j.name) : (i.union j).Coherent SameName := by
  have hbase : i.metadata.All fun key d => SameName key d.name ∧ SameName d.item j.name :=
    NameMap.All.mono hi fun _ _ hd => ⟨hd.1, hd.2.trans hname⟩
  exact hbase.foldl_insert hj

theorem Settled.union {i j : Item} (hi : i.Settled) (hj : j.Settled) : (i.union j).Settled :=
  NameMap.All.foldl_insert hi hj

theorem Coherent.resolve {s : Strategy} {i j : Item} {key key' : String} (h : SameName key key')
    (hi : SameName key i.name ∧ i.Coherent SameName)
    (hj : SameName key' j.name ∧ j.Coherent SameName) :
    SameName key (i.resolve s j).name ∧ (i.resolve s j).Coherent SameName := by
  have hkey : SameName key j.name := h.trans hj.1
  cases s with
  | preferBase => exact hi
  | preferOverlay => exact ⟨hkey, hj.2⟩
  | union => exact ⟨hkey, hi.2.union hj.2 (hi.1.symm.trans hkey)⟩

theorem Settled.resolve {s : Strategy} {i j : Item} (hi : i.Settled) (hj : j.Settled) :
    (i.resolve s j).Settled := by
  cases s with
  | preferBase => exact hi
  | preferOverlay => exact hj
  | union => exact hi.union hj

end Item

/-! ## Merged models -/

namespace Model

variable {s : Strategy} {base layer : Model}

theorem Coherent.merge (hb : base.Coherent SameName) (ho : layer.Coherent SameName) :
    (Model.merge s base layer).Coherent SameName where
  properties := hb.properties.overlay ho.properties
  items := hb.items.overlayItems ho.items fun _ _ _ _ hs hi hj => Item.Coherent.resolve hs hi hj
  tasks := hb.tasks.overlay ho.tasks
  targets := hb.targets.overlay ho.targets

theorem Settled.merge (hb : base.Settled) (ho : layer.Settled) :
    (Model.merge s base layer).Settled where
  properties := hb.properties.overlay ho.properties
  items := hb.items.overlayItems ho.items fun _ _ _ _ _ hi hj => hi.resolve hj

theorem problems_merge (hb : base.problems = []) (ho : layer.problems = []) :
    (Model.merge s base layer).problems = [] := by
  rw [problems_eq_nil_iff] at hb ho ⊢
  exact ⟨hb.1.merge ho.1, hb.2.merge ho.2⟩

theorem problems_foldl_merge {steps : List (Strategy × Model)} (hb : base.problems = [])
    (h : ∀ e ∈ steps, e.2.problems = []) :
    (steps.foldl (fun m e => Model.merge e.1 m e.2) base).problems = [] := by
  induction steps generalizing base with
  | nil => exact hb
  | cons e steps ih =>
    have hmerged := problems_merge (s := e.1) hb (h e List.mem_cons_self)
    exact ih hmerged fun d hd => h d (List.mem_cons_of_mem _ hd)

/-- **Merging keeps validity.** A valid model laid over a valid one gives a valid model, whatever
the strategy; so does any sequence of merges that begins with the empty model. -/
theorem problems_merge_eq_nil :
    (∀ (s : Strategy) (base layer : Model), base.problems = [] → layer.problems = [] →
      (Model.merge s base layer).problems = []) ∧
    ∀ steps : List (Strategy × Model), (∀ e ∈ steps, e.2.problems = []) →
      (steps.foldl (fun m e => Model.merge e.1 m e.2) {}).problems = [] :=
  ⟨fun _ _ _ => problems_merge, fun _ => problems_foldl_merge (by decide)⟩

/-- A model of one item, where the key, the name and the owner may be spelled differently. -/
def spelled (key name owner : String) : Model :=
  ({} : Model).put key (.item (({ name } : Item).attach { name := "Link", item := owner }))

/-- Six spellings of one item in two valid models. -/
theorem problems_merge_spelled :
    ((spelled "COMPILE" "Compile" "compilE").problems = [] ∧
      (spelled "cOMPILE" "compile" "CompilE").problems = [] ∧
      (Model.merge .union (spelled "COMPILE" "Compile" "compilE")
        (spelled "cOMPILE" "compile" "CompilE")).problems = []) ∧
    (∀ e ∈ [(Strategy.union, spelled "COMPILE" "Compile" "compilE"),
        (.preferBase, spelled "cOMPILE" "compile" "CompilE")], e.2.problems = []) ∧
    ([(Strategy.union, spelled "COMPILE" "Compile" "compilE"),
      (.preferBase, spelled "cOMPILE" "compile" "CompilE")].foldl
      (fun m e => Model.merge e.1 m e.2) {}).problems = [] := by
  have hb : (spelled "COMPILE" "Compile" "compilE").problems = [] := by decide +kernel
  have ho : (spelled "cOMPILE" "compile" "CompilE").problems = [] := by decide +kernel
  have hall : ∀ e ∈ [(Strategy.union, spelled "COMPILE" "Compile" "compilE"),
      (.preferBase, spelled "cOMPILE" "compile" "CompilE")], e.2.problems = [] := by decide +kernel
  exact ⟨⟨hb, ho, problems_merge_eq_nil.1 .union _ _ hb ho⟩, hall, problems_merge_eq_nil.2 _ hall⟩

end Model

end BuildVocabulary

import BuildVocabulary.Proofs.Catalog.Load
import BuildVocabulary.Proofs.Load.Typing
import BuildVocabulary.Proofs.Merge.Validity

/-!
# Typed models stay typed

Models that are built from documents are typed however they are merged. Under `union` an item takes
its kind, its custom type and its deprecation from one side together, so that they are never mixed.

* `Model.Built`: the models that documents and merges give, those of catalogs among them;
* `Model.Typed.merge`: one merge;
* **`typed_of_built`**: all of them.
-/

namespace BuildVocabulary

theorem Item.Typed.union {i j : Item} (hi : i.Typed) (hj : j.Typed) : (i.union j).Typed where
  field := hj.field
  commaList := hj.commaList
  metadata := NameMap.All.foldl_insert hi.metadata hj.metadata

theorem Item.Typed.resolve {s : Strategy} {i j : Item} (hi : i.Typed) (hj : j.Typed) :
    (i.resolve s j).Typed := by
  cases s with
  | preferBase => exact hi
  | preferOverlay => exact hj
  | union => exact hi.union hj

namespace Model

/-- The models that loaded documents give, merged one after the other or in groups. -/
inductive Built : Model → Prop where
  | empty : Built {}
  | loaded {doc : Json} {o : Outcome} (h : load doc = .ok o) : Built o.model
  | merged (s : Strategy) {base layer : Model} (hb : Built base) (hl : Built layer) :
    Built (merge s base layer)

theorem Built.compose {s : Strategy} {ms : List Model} (h : ∀ m ∈ ms, m.Built) :
    (Model.compose s ms).Built := by
  unfold Model.compose
  exact List.foldlRecOn ms _ Built.empty fun _ hb m hm => Built.merged s hb (h m hm)

theorem built_of_load_catalog {c : Catalog} {files : Files} {directory : String} {o : Composition}
    (h : c.load files directory = .ok o) : o.model.Built := by
  obtain ⟨-, os, hos, hmodel, -⟩ := Catalog.load_eq_ok_iff.mp h
  rw [hmodel]
  refine Built.compose fun m hm => ?_
  obtain ⟨out, hout, rfl⟩ := List.mem_map.mp hm
  obtain ⟨path, -, hpath⟩ := exists_mem_zip_of_forall₂ hos hout
  obtain ⟨doc, hdoc⟩ := exists_load_of_loadPath hpath
  exact Built.loaded hdoc

theorem Typed.empty : ({} : Model).Typed := ⟨NameMap.All.empty, NameMap.All.empty, rfl⟩

theorem Typed.merge {s : Strategy} {base layer : Model} (hb : base.Typed) (hl : layer.Typed) :
    (Model.merge s base layer).Typed where
  properties := hb.properties.overlay hl.properties
  items := hb.items.overlayItems hl.items fun _ _ _ _ _ hi hj => hi.resolve hj
  tasks := by
    have htasks : (Model.merge s base layer).tasks = base.tasks.overlay s layer.tasks := rfl
    rw [htasks, hl.tasks]
    exact hb.tasks

/-- **Models are typed.** In every model that is built from documents, the kind, the custom type and
the deprecation of each field fit each other; there are no tasks and there is no reserved
metadata. -/
theorem typed_of_built {m : Model} (h : m.Built) : m.Typed := by
  induction h with
  | empty => exact Typed.empty
  | loaded h => exact typed_of_resolveDocument (gives_of_load h)
  | merged s _ _ hb hl => exact hb.merge hl

/-- Both documents declare one item; the second one lays over it under another spelling. -/
def tintDocument : Json := .object [
  ("customTypes", .object [("Color", .array [.text "Red", .text "RED"])]),
  ("properties", .object [("Tint", .object [("deprecationMessage", .text "Use Hue"),
    ("listSeparators", .text ";,"), ("type", .text "@Color-list")])]),
  ("items", .object [("Compile", .object [("type", .text "@Color"),
    ("deprecationMessage", .text "Use Content")])])]

def hueDocument : Json := .object [
  ("items", .object [("COMPILE", .object [("values", .array [.text "A", .text "a"]),
    ("metadata", .object [("Hue", .object [("type", .object [("$name", .text "Hue-1")])])])])]),
  ("metadata", .array [.object [("$appliesTo", .array [.text "compile", .text "None"]),
    ("Link", .object [("deprecated", .bool true), ("deprecationMessage", .text "Use Path")])]])]

theorem typed_of_built_union : ∃ o o', load tintDocument = .ok o ∧ load hueDocument = .ok o' ∧
    (merge .union o.model o'.model).Built ∧ (merge .union o.model o'.model).Typed := by
  have htint : (load tintDocument).isOk = true := by decide +kernel
  have hhue : (load hueDocument).isOk = true := by decide +kernel
  obtain ⟨o, ho⟩ := exists_load_of_isOk htint
  obtain ⟨o', ho'⟩ := exists_load_of_isOk hhue
  have hbuilt := Built.merged .union (Built.loaded ho) (Built.loaded ho')
  exact ⟨o, o', ho, ho', hbuilt, typed_of_built hbuilt⟩

end Model

end BuildVocabulary

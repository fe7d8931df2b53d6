import BuildVocabulary.Proofs.FirstAppearance
import BuildVocabulary.Proofs.Lookup
import BuildVocabulary.Schema.Load
import Mathlib.Data.Finset.Card
import Mathlib.Data.List.TFAE

/-!
# Texts after any registrations

Texts are registered one after the other, some of them under identifiers that are there already.
What is found then is said of the list of registrations at once: an identifier stands where it was
registered first, and has the text that it was registered with last. A registration gives the
resources after it, so registrations in a chain are a list of them, too.

* `isSome_find?_iff_mem_ids`, `get_eq_ok_iff`, `get_eq_error_iff`: the queries agree on which
  identifiers there are;
* `ids_insert`, `find?_insert`: identifiers and texts after one registration;
* `ids_ofList`, `find?_ofList`: identifiers and texts after a list of registrations, by induction
  from the last one;
* `RegisteredFrom`: what every query answers after a list of registrations;
* **`last_registration_wins`**: these are the answers after every list of registrations.
-/

namespace BuildVocabulary.Resources

variable {r : Resources} {regs : List (String × String)} {id text other : String} {e : LoadError}

/-! ## Queries -/

theorem contains_iff_mem_ids : r.contains id = true ↔ id ∈ r.ids := by
  simp [contains, ids]

theorem isSome_find?_iff_mem_ids : (r.find? id).isSome = true ↔ id ∈ r.ids := by
  rw [find?, List.lookup_isSome_iff, ids, List.mem_map]
  refine exists_congr fun e => and_congr_right fun _ => ?_
  rw [beq_iff_eq, eq_comm]

theorem get_eq_ok_iff : r.get id = .ok text ↔ r.find? id = some text := by
  unfold get
  cases r.find? id <;> simp

theorem exists_get_eq_ok_iff : (∃ text, r.get id = .ok text) ↔ id ∈ r.ids := by
  simp only [get_eq_ok_iff, ← Option.isSome_iff_exists, isSome_find?_iff_mem_ids]

theorem get_eq_error_iff : r.get id = .error e ↔ id ∉ r.ids ∧ e = .resourceNotFound id := by
  rw [← isSome_find?_iff_mem_ids]
  unfold get
  cases r.find? id with
  | none => simp [eq_comm]
  | some text => simp

theorem isEmpty_iff : r.isEmpty = true ↔ r.ids = [] := by
  rw [isEmpty, List.isEmpty_iff, ids, List.map_eq_nil_iff]

/-! ## One registration -/

theorem map_fst_register (id text : String) (es : List (String × String)) :
    (register id text es).map Prod.fst = addNew (es.map Prod.fst) id := by
  induction es with
  | nil => rfl
  | cons e es ih =>
    rw [register]
    by_cases h : e.1 = id
    · have hid : id ∈ (e :: es).map Prod.fst := h ▸ List.mem_cons_self
      rw [if_pos h, addNew_of_mem hid, List.map_cons, List.map_cons]
    · have hmem : id ∈ (e :: es).map Prod.fst ↔ id ∈ es.map Prod.fst := by simp [Ne.symm h]
      rw [if_neg h, List.map_cons, ih]
      by_cases hid : id ∈ es.map Prod.fst
      · rw [addNew_of_mem hid, addNew_of_mem (hmem.mpr hid), List.map_cons]
      · rw [addNew, addNew, if_neg hid, if_neg (mt hmem.mp hid), List.map_cons, List.cons_append]

theorem lookup_register (id text other : String) (es : List (String × String)) :
    (register id text es).lookup other = if other = id then some text else es.lookup other := by
  induction es with
  | nil => exact lookup_cons_eq_ite (id, text) [] other
  | cons e es ih =>
    rw [register]
    by_cases h : e.1 = id
    · rw [if_pos h, lookup_cons_eq_ite, lookup_cons_eq_ite, h]
      split_ifs <;> rfl
    · rw [if_neg h, lookup_cons_eq_ite, lookup_cons_eq_ite, ih]
      by_cases ho : other = id
      · have hne : other ≠ e.1 := fun he => h (he.symm.trans ho)
        rw [if_neg hne, if_pos ho, if_pos ho]
      · rw [if_neg ho, if_neg ho]

/-- A new identifier is appended; one that is there keeps its place. -/
theorem ids_insert (r : Resources) (id text : String) :
    (r.insert id text).ids = addNew r.ids id := map_fst_register id text r.entries

/-- The text of one identifier is replaced, and no other. -/
theorem find?_insert (r : Resources) (id text other : String) :
    (r.insert id text).find? other = if other = id then some text else r.find? other :=
  lookup_register id text other r.entries

/-- A registration changes the answer for no other identifier. -/
theorem get_insert_of_ne (h : other ≠ id) : (r.insert id text).get other = r.get other := by
  have hfind : (r.insert id text).find? other = r.find? other :=
    (find?_insert r id text other).trans (if_neg h)
  rw [get, get, hfind]

/-! ## Registrations one after the other -/

/-- The resources after texts were registered one after the other. -/
def ofList (regs : List (String × String)) : Resources :=
  regs.foldl (fun r e => r.insert e.1 e.2) {}

theorem ofList_concat (regs : List (String × String)) (e : String × String) :
    ofList (regs ++ [e]) = (ofList regs).insert e.1 e.2 := List.foldl_concat ..

theorem ids_ofList (regs : List (String × String)) :
    (ofList regs).ids = (regs.map Prod.fst).eraseDups := by
  rw [← foldl_addNew_nil]
  induction regs using List.reverseRecOn with
  | nil => rfl
  | append_singleton regs e ih =>
    rw [ofList_concat, ids_insert, ih, List.map_append, List.map_singleton, foldl_addNew_concat]

theorem find?_ofList (regs : List (String × String)) (id : String) :
    (ofList regs).find? id = regs.reverse.lookup id := by
  induction regs using List.reverseRecOn with
  | nil => rfl
  | append_singleton regs e ih =>
    rw [ofList_concat, find?_insert, ih, List.reverse_concat, lookup_cons_eq_ite]

theorem mem_ids_ofList : id ∈ (ofList regs).ids ↔ id ∈ regs.map Prod.fst := by
  rw [ids_ofList, List.mem_eraseDups]

theorem nodup_ids_ofList (regs : List (String × String)) : (ofList regs).ids.Nodup := by
  rw [ids_ofList]
  exact nodup_eraseDups _

theorem size_ofList (regs : List (String × String)) :
    (ofList regs).size = (regs.map Prod.fst).toFinset.card := by
  have hset : (regs.map Prod.fst).toFinset = (ofList regs).ids.toFinset := by
    ext id
    rw [List.mem_toFinset, List.mem_toFinset, mem_ids_ofList]
  rw [hset, List.toFinset_card_of_nodup (nodup_ids_ofList regs), ids, List.length_map, size]

theorem isEmpty_ofList : (ofList regs).isEmpty = true ↔ regs = [] := by
  rw [isEmpty_iff, List.eq_nil_iff_forall_not_mem]
  simp only [mem_ids_ofList]
  rw [← List.eq_nil_iff_forall_not_mem, List.map_eq_nil_iff]

/-- What is found after a list of registrations. -/
structure RegisteredFrom (regs : List (String × String)) (r : Resources) : Prop where
  /-- Each identifier stands once, in order of first registration. -/
  ids : r.ids = (regs.map Prod.fst).eraseDups
  distinct : r.ids.Nodup
  size : r.size = (regs.map Prod.fst).toFinset.card
  isEmpty : r.isEmpty = true ↔ regs = []
  found : ∀ id, [r.contains id = true, ∃ text, r.get id = .ok text, id ∈ regs.map Prod.fst].TFAE
  /-- The text of an identifier is that of its last registration. -/
  last : ∀ id text, r.get id = .ok text ↔
    ∃ pre post, regs = pre ++ (id, text) :: post ∧ id ∉ post.map Prod.fst
  missing : ∀ id e, r.get id = .error e ↔ id ∉ regs.map Prod.fst ∧ e = .resourceNotFound id
  /-- One more registration is seen under its own identifier alone. -/
  others : ∀ id text other, other ≠ id → (r.insert id text).get other = r.get other

/-- **The first registration of an identifier places it, and the last one gives its text.** This
holds after any list of registrations. Identifiers are compared exactly, and for one that was not
registered `get` fails with the identifier that it was asked for. -/
theorem last_registration_wins (regs : List (String × String)) :
    RegisteredFrom regs (ofList regs) where
  ids := ids_ofList regs
  distinct := nodup_ids_ofList regs
  size := size_ofList regs
  isEmpty := isEmpty_ofList
  found id := by
    rw [contains_iff_mem_ids, exists_get_eq_ok_iff, mem_ids_ofList]
    exact List.tfae_of_forall (id ∈ regs.map Prod.fst) _ (by simp)
  last id text := by rw [get_eq_ok_iff, find?_ofList, lookup_reverse_eq_some_iff]
  missing id e := by rw [get_eq_error_iff, mem_ids_ofList]
  others _ _ _ := get_insert_of_ne

/-- Registrations under identifiers that differ in case alone, and a second one under the first. -/
def casedTexts : List (String × String) :=
  [("Sdk", "{}"), ("sdk", "[]"), ("Web", "null"), ("Sdk", "true")]

/-- Identifiers that differ in case have texts of their own; a second text takes the place of the
first. -/
theorem last_registration_wins_cased :
    (ofList casedTexts).ids = ["Sdk", "sdk", "Web"] ∧ (ofList casedTexts).size = 3 ∧
    (ofList casedTexts).get "Sdk" = .ok "true" ∧ (ofList casedTexts).get "sdk" = .ok "[]" ∧
    (ofList casedTexts).get "web" = .error (.resourceNotFound "web") ∧
    ((ofList casedTexts).insert "WEB" "{}").get "Web" = .ok "null" := by
  have h := last_registration_wins casedTexts
  refine ⟨h.ids, h.size, ?_, ?_, ?_, ?_⟩
  · exact (h.last "Sdk" "true").mpr ⟨casedTexts.take 3, [], rfl, by decide⟩
  · exact (h.last "sdk" "[]").mpr ⟨casedTexts.take 1, casedTexts.drop 2, rfl, by decide⟩
  · exact (h.missing "web" _).mpr ⟨by decide, rfl⟩
  · rw [h.others "WEB" "{}" "Web" (by decide)]
    exact (h.last "Web" "null").mpr ⟨casedTexts.take 2, casedTexts.drop 3, rfl, by decide⟩

end BuildVocabulary.Resources

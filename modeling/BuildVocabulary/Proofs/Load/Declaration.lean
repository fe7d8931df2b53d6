import BuildVocabulary.Proofs.Load.Reports
import BuildVocabulary.Proofs.NameMap.Layers
import BuildVocabulary.Proofs.Repetition

/-!
# Declarations of a section

A section may declare a name several times, in any spellings and with other names in between. The
map that it builds holds each name once: where it came first, and with what came last. Every later
declaration of a name is reported.

* `definitions`, `definedNames`, `lastDefinition?`: the members of a section that declare something;
* `Declares`: the map and the reports of a section, said by its members alone;
* `Declares.comment`, `Declares.concat`: one more member;
* `declareAll_induction`: what each member keeps holds of every section;
* **`declares_of_declareAll`**: every section builds its map and reports in this way;
* `filter_of_declareAll`: the other reports of a section are those of its members.
-/

namespace BuildVocabulary

open Json (Location Members)

/-! ## Members that declare something -/

section Definitions

variable (ms : Members)

/-- The members of a section that declare something. -/
def definitions : Members := ms.filter fun e => !isComment e.1

/-- The names that a section declares, with repetitions. -/
def definedNames : List String := (definitions ms).keys

/-- The folded names that a section declares, each where it comes first. -/
def classes : List String := ((definedNames ms).map fold).eraseDups

/-- The last member that declares a name, in any spelling. -/
def lastDefinition? (name : String) : Option (String × Json) :=
  (definitions ms).reverse.find? fun e => SameName e.1 name

variable {ms} {e : String × Json}

theorem definitions_concat_of_isComment (hc : isComment e.1 = true) :
    definitions (ms ++ [e]) = definitions ms := by
  simp [definitions, hc]

theorem definitions_concat (hc : isComment e.1 = false) :
    definitions (ms ++ [e]) = definitions ms ++ [e] := by
  simp [definitions, hc]

theorem definedNames_concat (hc : isComment e.1 = false) :
    definedNames (ms ++ [e]) = definedNames ms ++ [e.1] := by
  rw [definedNames, definitions_concat hc, Members.keys, List.map_append, List.map_singleton]
  rfl

theorem lastDefinition?_concat (hc : isComment e.1 = false) (name : String) :
    lastDefinition? (ms ++ [e]) name =
      if SameName e.1 name then some e else lastDefinition? ms name := by
  rw [lastDefinition?, definitions_concat hc, List.reverse_append, List.reverse_singleton,
    List.singleton_append, List.find?_cons, lastDefinition?]
  by_cases hs : SameName e.1 name <;> simp [hs]

end Definitions

/-! ## What a section declares -/

/-- The map that the members of a section build in a scope, with all that the section reports. -/
structure Declares {α : Type} (scope : Scope) (resolve : Location → String → Json → Resolve α)
    (here : Location) (ms : Members) (m : NameMap α) (fs : List Finding) : Prop where
  /-- There is one entry a class of names, where the first name of the class stands. -/
  order : m.keys = classes ms
  /-- An entry has the spelling and the value of the last member of its name. -/
  entries : m.All fun key a => ∃ v gs,
    lastDefinition? ms key = some (key, v) ∧ resolve (here.key key) key v = .ok a gs
  /-- The names that are reported are those that repeat an earlier one. -/
  reports : fs.filter (·.scope? = some scope) = (repeats (definedNames ms)).map scope.again
  /-- There are as many of them as names in excess of one a class. -/
  count : (fs.filter (·.scope? = some scope)).length + (classes ms).length =
    (definedNames ms).length

variable {α : Type} {scope : Scope} {resolve : Location → String → Json → Resolve α}
  {here : Location} {ms : Members} {m : NameMap α} {fs gs : List Finding} {e : String × Json}
  {a : α}

theorem filter_scope_eq_nil (h : ∀ g ∈ gs, g.scope? ≠ some scope) :
    gs.filter (·.scope? = some scope) = [] := by
  rw [List.filter_eq_nil_iff]
  intro g hg
  rw [decide_eq_true_eq]
  exact h g hg

namespace Declares

/-- The number of reports follows from what is reported. -/
theorem of_reports (horder : m.keys = classes ms)
    (hentries : m.All fun key a => ∃ v gs,
      lastDefinition? ms key = some (key, v) ∧ resolve (here.key key) key v = .ok a gs)
    (hreports : fs.filter (·.scope? = some scope) = (repeats (definedNames ms)).map scope.again) :
    Declares scope resolve here ms m fs where
  order := horder
  entries := hentries
  reports := hreports
  count := by rw [hreports, List.length_map, classes, length_repeats_add]

theorem empty : Declares scope resolve here [] .empty [] := .of_reports rfl .empty rfl

theorem contains_eq_named (h : Declares scope resolve here ms m fs) (name : String) :
    m.contains name = named (definedNames ms) name := by
  rw [Bool.eq_iff_iff, NameMap.contains_iff_mem_keys, h.order, classes, List.mem_eraseDups,
    named_iff_mem_map_fold]

/-- Findings about other things may stand in front. -/
theorem after (h : Declares scope resolve here ms m fs) (hgs : ∀ g ∈ gs, g.scope? ≠ some scope) :
    Declares scope resolve here ms m (gs ++ fs) := by
  refine .of_reports h.order h.entries ?_
  rw [List.filter_append, filter_scope_eq_nil hgs, List.nil_append, h.reports]

theorem comment (h : Declares scope resolve here ms m fs) (hc : isComment e.1 = true) :
    Declares scope resolve here (ms ++ [e]) m fs := by
  have hnames : definedNames (ms ++ [e]) = definedNames ms := by
    rw [definedNames, definitions_concat_of_isComment hc, definedNames]
  refine .of_reports ?_ ?_ ?_
  · rw [classes, hnames, ← classes, h.order]
  · simp only [lastDefinition?, definitions_concat_of_isComment hc]
    exact h.entries
  · rw [hnames, h.reports]

/-- One more member takes the place of those of its name, and is reported if there are any. -/
theorem concat (h : Declares scope resolve here ms m fs) (hc : isComment e.1 = false)
    (ha : resolve (here.key e.1) e.1 e.2 = .ok a gs) (hgs : ∀ g ∈ gs, g.scope? ≠ some scope) :
    Declares scope resolve here (ms ++ [e]) (m.insert e.1 a)
      (fs ++ (gs ++ if m.contains e.1 then [scope.again e.1] else [])) := by
  refine .of_reports ?_ ?_ ?_
  · have hkeys : (m.insert e.1 a).keys = addNew m.keys (fold e.1) := NameMap.keys_insert m e.1 a
    rw [hkeys, h.order, classes, classes, definedNames_concat hc, List.map_append,
      List.map_singleton, ← foldl_addNew_nil, ← foldl_addNew_nil, foldl_addNew_concat]
  · intro d hd
    have hstored := NameMap.stored?_eq_some_iff.mpr ⟨hd, .refl d.1⟩
    rw [NameMap.stored?_insert] at hstored
    rw [lastDefinition?_concat hc]
    by_cases hs : SameName e.1 d.1
    · rw [if_pos hs] at hstored ⊢
      obtain rfl := Option.some.inj hstored
      exact ⟨e.2, gs, rfl, ha⟩
    · rw [if_neg hs] at hstored ⊢
      exact h.entries d (NameMap.mem_of_stored? hstored).1
  · rw [List.filter_append, List.filter_append, h.reports, filter_scope_eq_nil hgs,
      definedNames_concat hc, repeats_concat, h.contains_eq_named, List.map_append, List.nil_append]
    by_cases hn : named (definedNames ms) e.1 = true <;> simp [hn, scope?_again]

end Declares

/-! ## Sections -/

section Sections

variable {again : String → Finding} {m₀ : NameMap α}

theorem declareAll_concat_eq_ok (h : declareAll again resolve here (ms ++ [e]) = .ok m fs) :
    ∃ m₀ fs₀ gs, declareAll again resolve here ms = .ok m₀ fs₀ ∧
      declare again resolve here m₀ e = .ok m gs ∧ fs = fs₀ ++ gs := by
  rw [declareAll, List.foldlM_append, Resolve.bind_eq_ok_iff] at h
  obtain ⟨m₀, fs₀, gs, hms, he, rfl⟩ := h
  rw [List.foldlM_cons, Resolve.bind_eq_ok_iff] at he
  obtain ⟨_, hs, _, he, ⟨⟩, rfl⟩ := he
  exact ⟨m₀, fs₀, hs, hms, he, by rw [List.append_nil]⟩

theorem declare_eq_ok_of_isComment (hc : isComment e.1 = true)
    (h : declare again resolve here m₀ e = .ok m fs) : m = m₀ ∧ fs = [] := by
  rw [declare, if_pos hc] at h
  cases h
  exact ⟨rfl, rfl⟩

theorem declare_eq_ok (hc : isComment e.1 = false)
    (h : declare again resolve here m₀ e = .ok m fs) :
    ∃ a gs, resolve (here.key e.1) e.1 e.2 = .ok a gs ∧ m = m₀.insert e.1 a ∧
      fs = gs ++ if m₀.contains e.1 then [again e.1] else [] := by
  rw [declare, if_neg (by simp [hc]), Resolve.bind_eq_ok_iff] at h
  obtain ⟨a, gs, _, ha, h, rfl⟩ := h
  obtain ⟨_, _, _, ⟨⟩, ⟨⟩, rfl⟩ := Resolve.bind_eq_ok_iff.mp h
  exact ⟨a, gs, ha, rfl, by rw [List.append_nil]⟩

/-- What holds of no members, and is kept by a comment and by a member that declares something,
holds of every section. -/
theorem declareAll_induction {I : Members → NameMap α → List Finding → Prop}
    (h : declareAll again resolve here ms = .ok m fs) (empty : I [] .empty [])
    (comment : ∀ ms m fs e, I ms m fs → isComment e.1 = true → I (ms ++ [e]) m fs)
    (concat : ∀ ms m fs e a gs, I ms m fs → isComment e.1 = false →
      resolve (here.key e.1) e.1 e.2 = .ok a gs →
      I (ms ++ [e]) (m.insert e.1 a)
        (fs ++ (gs ++ if m.contains e.1 then [again e.1] else []))) : I ms m fs := by
  induction ms using List.reverseRecOn generalizing m fs with
  | nil =>
    cases h
    exact empty
  | append_singleton ms e ih =>
    obtain ⟨m₀, fs₀, gs, hms, he, rfl⟩ := declareAll_concat_eq_ok h
    by_cases hc : isComment e.1 = true
    · obtain ⟨rfl, rfl⟩ := declare_eq_ok_of_isComment hc he
      rw [List.append_nil]
      exact comment ms m fs₀ e (ih hms) hc
    · rw [Bool.not_eq_true] at hc
      obtain ⟨a, gs, ha, rfl, rfl⟩ := declare_eq_ok hc he
      exact concat ms m₀ fs₀ e a gs (ih hms) hc ha

/-- **A section declares each name once and reports every other declaration.** -/
theorem declares_of_declareAll (h : declareAll scope.again resolve here ms = .ok m fs)
    (hresolve : ∀ there name v,
      (resolve there name v).ReportsOnly fun f => f.scope? ≠ some scope) :
    Declares scope resolve here ms m fs :=
  declareAll_induction h .empty (fun _ _ _ _ hbefore hc => hbefore.comment hc)
    fun _ _ _ e _ _ hbefore hc ha =>
      hbefore.concat hc ha ((hresolve (here.key e.1) e.1 e.2).forall_mem ha)

/-- Every member that declares something is resolved, also one that is replaced later. -/
theorem exists_resolved_of_declareAll (h : declareAll again resolve here ms = .ok m fs) :
    ∀ e ∈ definitions ms, ∃ a gs, resolve (here.key e.1) e.1 e.2 = .ok a gs := by
  refine declareAll_induction (I := fun ms _ _ => ∀ e ∈ definitions ms, ∃ a gs,
    resolve (here.key e.1) e.1 e.2 = .ok a gs) h ?_ ?_ ?_
  · exact fun e he => absurd he List.not_mem_nil
  · intro ms m fs e hbefore hc
    rwa [definitions_concat_of_isComment hc]
  · intro ms m fs e a gs hbefore hc ha
    rw [definitions_concat hc, List.forall_mem_append, List.forall_mem_singleton]
    exact ⟨hbefore, a, gs, ha⟩

/-- Apart from repeated names, a section reports what its members report. -/
theorem filter_of_declareAll {p : Finding → Bool} {own : String × Json → List Finding}
    (h : declareAll again resolve here ms = .ok m fs) (hagain : ∀ name, p (again name) = false)
    (hown : ∀ e a gs, resolve (here.key e.1) e.1 e.2 = .ok a gs → gs.filter p = own e) :
    fs.filter p = (definitions ms).flatMap own := by
  refine declareAll_induction (I := fun ms _ fs => fs.filter p = (definitions ms).flatMap own)
    h rfl ?_ ?_
  · intro ms m fs e hbefore hc
    rw [hbefore, definitions_concat_of_isComment hc]
  · intro ms m fs e a gs hbefore hc ha
    have hlast : (if m.contains e.1 then [again e.1] else []).filter p = [] := by
      split_ifs <;> simp [hagain]
    rw [List.filter_append, hbefore, List.filter_append, hlast, List.append_nil, hown e a gs ha,
      definitions_concat hc, List.flatMap_append, List.flatMap_singleton]

end Sections

end BuildVocabulary

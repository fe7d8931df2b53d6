import BuildVocabulary.Proofs.NameMap.Layers
import Mathlib.Data.List.Forall2
import Mathlib.Data.List.Perm.Subperm

/-!
# Maps that agree

Two maps agree if they have equally many entries and each entry of one has its equal in the other,
spelled alike. The order of entries makes no difference, and where values are compared as they are,
nothing else does.

* `agrees_iff_stored?`: agreement name by name; so it is an equivalence (`Agrees.refl`,
  `Agrees.symm`, `Agrees.trans`), and maps that agree give equal values under every name;
* `agrees_iff_reordered`, `agrees_eq_iff_perm`: agreement as another order of the same entries;
* `Agrees.flatMap_perm`: what is collected from the entries is the same up to order;
* **`Lays.agrees_foldl`**: layers that agree, laid over maps that agree.
-/

namespace BuildVocabulary.NameMap

variable {α β : Type} {eq : α → α → Prop} {l m n : NameMap α} {name : String}

/-- The entries are spelled alike, and their values are equal. -/
def SameEntry (eq : α → α → Prop) (d e : String × α) : Prop := d.1 = e.1 ∧ eq d.2 e.2

/-- The same entries in some order, for values compared by `eq`. -/
def Reordered (eq : α → α → Prop) (m n : NameMap α) : Prop :=
  ∃ es, m.toList.Perm es ∧ List.Forall₂ (SameEntry eq) es n.toList

theorem sameEntry_eq_iff {d e : String × α} : SameEntry Eq d e ↔ d = e := Prod.ext_iff.symm

/-! ## Agreement name by name -/

theorem rel_iff {r : α → β → Prop} {x : Option α} {y : Option β} :
    Option.Rel r x y ↔ (x = none ∧ y = none) ∨ ∃ a b, x = some a ∧ y = some b ∧ r a b := by
  constructor
  · rintro (hr | _)
    · exact .inr ⟨_, _, rfl, rfl, hr⟩
    · exact .inl ⟨rfl, rfl⟩
  · rintro (⟨rfl, rfl⟩ | ⟨a, b, rfl, rfl, hr⟩)
    · exact .none
    · exact .some hr

theorem rel_map {γ δ : Type} {r : α → β → Prop} {r' : γ → δ → Prop} {f : α → γ} {g : β → δ}
    {x : Option α} {y : Option β} (h : Option.Rel r x y) (hr : ∀ a b, r a b → r' (f a) (g b)) :
    Option.Rel r' (x.map f) (y.map g) := by
  cases h with
  | none => exact .none
  | some h => exact .some (hr _ _ h)

theorem mem_keys_iff_exists {k : String} :
    k ∈ m.keys ↔ ∃ name, fold name = k ∧ (m.stored? name).isSome = true := by
  constructor
  · intro hk
    obtain ⟨e, he, rfl⟩ := List.mem_map.mp hk
    exact ⟨e.1, rfl, by rw [stored?_eq_some_iff.mpr ⟨he, .refl e.1⟩]; rfl⟩
  · rintro ⟨name, rfl, h⟩
    rwa [← contains_iff_mem_keys, contains_eq_isSome_stored?]

theorem Agrees.keys_perm (h : m.Agrees eq n) : m.keys.Perm n.keys := by
  have hsub : m.keys ⊆ n.keys := by
    intro k hk
    obtain ⟨e, he, rfl⟩ := List.mem_map.mp hk
    obtain ⟨e', he', hname, -⟩ := h.2 e he
    exact List.mem_map.mpr ⟨e', he', congrArg fold hname.symm⟩
  have hlen : n.keys.length ≤ m.keys.length := by
    rw [keys, keys, List.length_map, List.length_map]
    exact Nat.le_of_eq h.1.symm
  exact (List.subperm_of_subset m.keys_nodup hsub).perm_of_length_le hlen

/-- Maps agree exactly if each name has equal entries in both, or none. -/
theorem agrees_iff_stored? :
    m.Agrees eq n ↔ ∀ name, Option.Rel (SameEntry eq) (m.stored? name) (n.stored? name) := by
  constructor
  · intro h name
    cases hm : m.stored? name with
    | none =>
      have hkey : fold name ∉ n.keys := by
        rw [← h.keys_perm.mem_iff, ← contains_iff_mem_keys, contains_eq_isSome_stored?, hm]
        exact Bool.false_ne_true
      rw [stored?_eq_none_of_not_contains fun hc => hkey (contains_iff_mem_keys.mp hc)]
      exact .none
    | some e =>
      obtain ⟨hmem, hsame⟩ := mem_of_stored? hm
      obtain ⟨e', he', hname, heq⟩ := h.2 e hmem
      rw [stored?_eq_some_iff.mpr ⟨he', hname ▸ hsame⟩]
      exact .some ⟨hname, heq⟩
  · intro h
    have hkeys : m.keys.Perm n.keys := by
      refine (List.perm_ext_iff_of_nodup m.keys_nodup n.keys_nodup).mpr fun k => ?_
      rw [mem_keys_iff_exists, mem_keys_iff_exists]
      refine exists_congr fun name => and_congr_right fun _ => ?_
      rcases rel_iff.mp (h name) with ⟨hm, hn⟩ | ⟨d, e, hm, hn, -⟩ <;> rw [hm, hn]
      exact Iff.rfl
    refine ⟨by simpa [keys, size] using hkeys.length_eq, fun e he => ?_⟩
    have hstored : m.stored? e.1 = some e := stored?_eq_some_iff.mpr ⟨he, .refl e.1⟩
    have hrel := h e.1
    rw [hstored] at hrel
    rcases rel_iff.mp hrel with ⟨hm, -⟩ | ⟨d, e', hm, hn, hsame⟩
    · cases hm
    · obtain rfl := Option.some.inj hm
      exact ⟨e', (mem_of_stored? hn).1, hsame⟩

theorem Agrees.refl (heq : ∀ a, eq a a) (m : NameMap α) : m.Agrees eq m :=
  ⟨rfl, fun e he => ⟨e, he, rfl, heq e.2⟩⟩

theorem Agrees.symm (heq : ∀ {a b}, eq a b → eq b a) (h : m.Agrees eq n) : n.Agrees eq m := by
  refine agrees_iff_stored?.mpr fun name => ?_
  rcases rel_iff.mp (agrees_iff_stored?.mp h name) with ⟨hm, hn⟩ | ⟨d, e, hm, hn, hsame⟩
  · exact rel_iff.mpr (.inl ⟨hn, hm⟩)
  · exact rel_iff.mpr (.inr ⟨e, d, hn, hm, hsame.1.symm, heq hsame.2⟩)

theorem Agrees.trans (heq : ∀ {a b c}, eq a b → eq b c → eq a c) (h : l.Agrees eq m)
    (h' : m.Agrees eq n) : l.Agrees eq n := by
  refine ⟨h.1.trans h'.1, fun e he => ?_⟩
  obtain ⟨e', he', hname, hvalue⟩ := h.2 e he
  obtain ⟨e'', he'', hname', hvalue'⟩ := h'.2 e' he'
  exact ⟨e'', he'', hname.trans hname', heq hvalue hvalue'⟩

/-- Maps that agree give equal values under every name. -/
theorem Agrees.find? (h : m.Agrees eq n) (name : String) :
    Option.Rel eq (m.find? name) (n.find? name) := by
  rw [find?_eq_map_stored?, find?_eq_map_stored?]
  exact rel_map (agrees_iff_stored?.mp h name) fun _ _ hsame => hsame.2

/-! ## Agreement as another order -/

theorem Agrees.exists_stored? (h : m.Agrees eq n) {e : String × α} (he : e ∈ n.toList) :
    ∃ d, m.stored? e.1 = some d ∧ SameEntry eq d e := by
  have hn : n.stored? e.1 = some e := stored?_eq_some_iff.mpr ⟨he, .refl e.1⟩
  rcases rel_iff.mp (agrees_iff_stored?.mp h e.1) with ⟨-, hn'⟩ | ⟨d, e', hm, hn', hsame⟩
  · rw [hn'] at hn
    cases hn
  · rw [hn'] at hn
    exact ⟨d, hm, Option.some.inj hn ▸ hsame⟩

theorem exists_mem_of_forall₂ {r : α → β → Prop} {xs : List α} {ys : List β}
    (h : List.Forall₂ r xs ys) {x : α} (hx : x ∈ xs) : ∃ y ∈ ys, r x y := by
  induction h with
  | nil => cases hx
  | cons hxy _ ih =>
    rcases List.mem_cons.mp hx with rfl | hx
    · exact ⟨_, List.mem_cons_self, hxy⟩
    · obtain ⟨y, hy, hr⟩ := ih hx
      exact ⟨y, List.mem_cons_of_mem _ hy, hr⟩

/-- Maps agree exactly if one has the entries of the other in some order. -/
theorem agrees_iff_reordered : m.Agrees eq n ↔ m.Reordered eq n := by
  constructor
  · intro h
    -- the entries of `m`, in the order in which `n` has their names
    let es : List (String × α) := n.toList.map fun e => (m.stored? e.1).getD e
    have hrel : List.Forall₂ (SameEntry eq) es n.toList := by
      rw [List.forall₂_map_left_iff, List.forall₂_same]
      intro e he
      obtain ⟨d, hd, hsame⟩ := h.exists_stored? he
      rwa [hd]
    have hsub : es ⊆ m.toList := by
      intro d hd
      obtain ⟨e, he, rfl⟩ := List.mem_map.mp hd
      obtain ⟨d, hd, -⟩ := h.exists_stored? he
      rw [hd]
      exact (mem_of_stored? hd).1
    have hkeys : es.map entryKey = n.keys := by
      rw [keys, List.map_map]
      refine List.map_congr_left fun e he => ?_
      obtain ⟨d, hd, hsame⟩ := h.exists_stored? he
      rw [Function.comp_apply, hd]
      exact congrArg fold hsame.1
    have hnodup : es.Nodup := .of_map entryKey (hkeys ▸ n.keys_nodup)
    have hlen : m.toList.length ≤ es.length := by
      rw [hrel.length_eq]
      exact Nat.le_of_eq h.1
    exact ⟨es, ((List.subperm_of_subset hnodup hsub).perm_of_length_le hlen).symm, hrel⟩
  · rintro ⟨es, hperm, hrel⟩
    exact ⟨hperm.length_eq.trans hrel.length_eq, fun e he =>
      exists_mem_of_forall₂ hrel (hperm.mem_iff.mp he)⟩

theorem agrees_eq_iff_perm : m.Agrees Eq n ↔ m.toList.Perm n.toList := by
  have hsame : (SameEntry Eq : String × α → String × α → Prop) = Eq := by
    funext d e
    exact propext sameEntry_eq_iff
  rw [agrees_iff_reordered, Reordered, hsame, List.forall₂_eq_eq_eq]
  constructor
  · rintro ⟨es, hperm, rfl⟩
    exact hperm
  · exact fun hperm => ⟨n.toList, hperm, rfl⟩

/-- What is collected from maps that agree is the same up to order. -/
theorem Agrees.flatMap_perm {f : String × α → List β} (h : m.Agrees eq n)
    (hf : ∀ d e, SameEntry eq d e → (f d).Perm (f e)) :
    (m.toList.flatMap f).Perm (n.toList.flatMap f) := by
  obtain ⟨es, hperm, hrel⟩ := agrees_iff_reordered.mp h
  refine (hperm.flatMap_right f).trans ?_
  clear hperm
  generalize n.toList = es' at hrel
  induction hrel with
  | nil => exact .refl _
  | cons hsame _ ih => exact (hf _ _ hsame).append ih

/-! ## Layers -/

/-- **Layers that agree, laid over maps that agree**, give maps that agree, if combining them goes
by what agrees. -/
theorem Lays.agrees_foldl {c : String × α → String × α → String × α}
    {step : NameMap α → String × α → NameMap α} {base base' layer layer' : NameMap α}
    (h : Lays c step)
    (hc : ∀ d d' e e', SameEntry eq d d' → SameEntry eq e e' → SameEntry eq (c d e) (c d' e'))
    (hbase : base.Agrees eq base') (hlayer : layer.Agrees eq layer') :
    (layer.toList.foldl step base).Agrees eq (layer'.toList.foldl step base') := by
  refine agrees_iff_stored?.mpr fun name => ?_
  rw [h.stored?_foldl, h.stored?_foldl]
  rcases rel_iff.mp (agrees_iff_stored?.mp hbase name) with ⟨hb, hb'⟩ | ⟨d, d', hb, hb', hd⟩
  · rw [hb, hb', Option.merge_none_left, Option.merge_none_left]
    exact agrees_iff_stored?.mp hlayer name
  · rcases rel_iff.mp (agrees_iff_stored?.mp hlayer name) with ⟨hl, hl'⟩ | ⟨e, e', hl, hl', he⟩
    · rw [hl, hl', Option.merge_none_right, Option.merge_none_right, hb, hb']
      exact .some hd
    · rw [hb, hb', hl, hl', Option.merge_some_some, Option.merge_some_some]
      exact .some (hc d d' e e' hd he)

end BuildVocabulary.NameMap

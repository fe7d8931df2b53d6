import BuildVocabulary.Proofs.NameMap
import BuildVocabulary.Schema.TypeDefinition

/-!
# What a resolved part gives

Four readings of a `Resolve`, each with one lemma for every way in which parts are put together.

* `Gives P r a`: the part gives the value `a`, and all that it reports has the property `P`;
* `ReportsOnly P r`: whatever the part reports has the property `P`;
* `FailsOnly Q r`: if the part fails, its error has the property `Q`;
* `Accepted r`: the part gives some value;
* `Gives.foldlM`, `accepted_foldlM`: the same for a loop over a list;
* `Gives.declareAll`: what holds of every entry that the members of a section declare;
* `foldlM_map_eq`: loops that carry a value along with others.
-/

namespace BuildVocabulary.Resolve

variable {α β : Type} {P : Finding → Prop} {fs : List Finding} {r : Resolve α} {a b : α}

/-! ## Parts of known outcome -/

@[simp] theorem lift_ok_bind (a : α) (f : α → Resolve β) :
    (liftM (Except.ok a : Except LoadError α) >>= f : Resolve β) = f a := after_nil (f a)

@[simp] theorem lift_error_bind (e : LoadError) (f : α → Resolve β) :
    (liftM (Except.error e : Except LoadError α) >>= f : Resolve β) = fail e := rfl

@[simp] theorem map_ok (g : α → β) (a : α) (fs : List Finding) :
    g <$> ok a fs = ok (g a) fs := by
  change ok a fs >>= (fun a => ok (g a) []) = _
  rw [ok_bind, after_ok, List.append_nil]

@[simp] theorem map_fail (g : α → β) (e : LoadError) :
    g <$> (fail e : Resolve α) = fail e := rfl

theorem bind_eq_ok_iff {r : Resolve α} {f : α → Resolve β} {b : β} {hs : List Finding} :
    r >>= f = ok b hs ↔ ∃ a fs gs, r = ok a fs ∧ f a = ok b gs ∧ hs = fs ++ gs := by
  cases r with
  | ok a fs =>
    rw [ok_bind]
    cases hf : f a with
    | ok c gs =>
      rw [after_ok, ok.injEq]
      constructor
      · rintro ⟨rfl, rfl⟩
        exact ⟨a, fs, gs, rfl, hf, rfl⟩
      · rintro ⟨_, _, _, ⟨⟩, hc, rfl⟩
        rw [hf] at hc
        cases hc
        exact ⟨rfl, rfl⟩
    | fail e =>
      constructor
      · rintro ⟨⟩
      · rintro ⟨_, _, _, ⟨⟩, hc, -⟩
        rw [hf] at hc
        cases hc
  | fail e =>
    constructor
    · rintro ⟨⟩
    · rintro ⟨_, _, _, ⟨⟩, -⟩

/-- What only asks for a shape reports nothing. -/
theorem lift_eq_ok_iff {x : Except LoadError α} {a : α} {fs : List Finding} :
    (liftM x : Resolve α) = ok a fs ↔ x = .ok a ∧ fs = [] := by
  change ofExcept x = ok a fs ↔ _
  cases x with
  | ok b => simp [ofExcept, eq_comm]
  | error e => simp [ofExcept]

/-- A loop that carries a value inside another one is the loop over the value. -/
theorem foldlM_map_eq {γ δ ι : Type} (embed : γ → δ) {step : δ → ι → Resolve δ}
    {inner : γ → ι → Resolve γ} (h : ∀ c x, step (embed c) x = embed <$> inner c x)
    (xs : List ι) (c : γ) : xs.foldlM step (embed c) = embed <$> xs.foldlM inner c := by
  induction xs generalizing c with
  | nil => exact (map_pure embed c).symm
  | cons x xs ih =>
    rw [List.foldlM_cons, List.foldlM_cons, h, bind_map_left, map_bind]
    exact bind_congr ih

/-! ## Values and reports -/

/-- The part gives this value, and all that it reports has the property. -/
def Gives (P : Finding → Prop) (r : Resolve α) (a : α) : Prop :=
  ∃ fs, r = .ok a fs ∧ ∀ f ∈ fs, P f

@[simp] theorem gives_ok : (ok a fs).Gives P b ↔ a = b ∧ ∀ f ∈ fs, P f := by
  constructor
  · rintro ⟨gs, h, hgs⟩
    cases h
    exact ⟨rfl, hgs⟩
  · rintro ⟨rfl, hfs⟩
    exact ⟨fs, rfl, hfs⟩

@[simp] theorem gives_pure : (pure a : Resolve α).Gives P b ↔ a = b := by
  rw [show (pure a : Resolve α) = ok a [] from rfl, gives_ok]
  simp

@[simp] theorem not_gives_fail {e : LoadError} : ¬ (fail e : Resolve α).Gives P a := by
  rintro ⟨_, h, -⟩
  cases h

@[simp] theorem gives_after : (r.after fs).Gives P a ↔ (∀ f ∈ fs, P f) ∧ r.Gives P a := by
  cases r with
  | ok b gs =>
    rw [after_ok, gives_ok, gives_ok, List.forall_mem_append]
    exact and_left_comm
  | fail e => simp

@[simp] theorem gives_bind {f : α → Resolve β} {b : β} :
    (r >>= f).Gives P b ↔ ∃ a, r.Gives P a ∧ (f a).Gives P b := by
  cases r with
  | ok a fs =>
    rw [ok_bind, gives_after]
    simp only [gives_ok, and_assoc, exists_eq_left']
  | fail e => simp

@[simp] theorem gives_lift {x : Except LoadError α} :
    (liftM x : Resolve α).Gives P a ↔ x = .ok a := by
  change (ofExcept x).Gives P a ↔ _
  cases x with
  | ok b => simp [ofExcept]
  | error e => simp [ofExcept]

@[simp] theorem gives_reportIf {c : Bool} {f : Finding} {u : Unit} :
    (reportIf c f).Gives P u ↔ (c = true → P f) := by
  cases c <;> simp [reportIf]

theorem Gives.unique {Q : Finding → Prop} (h : r.Gives P a) (h' : r.Gives Q b) : a = b := by
  obtain ⟨fs, hr, -⟩ := h
  obtain ⟨gs, hr', -⟩ := h'
  rw [hr] at hr'
  cases hr'
  rfl

theorem Gives.exists_eq_ok (h : r.Gives P a) : ∃ fs, r = .ok a fs := h.imp fun _ hr => hr.1

/-- A loop keeps what each of its steps keeps. -/
theorem Gives.foldlM {step : β → α → Resolve β} {I : β → Prop} {xs : List α} {b c : β}
    (h : (xs.foldlM step b).Gives P c)
    (hstep : ∀ b x c, x ∈ xs → I b → (step b x).Gives P c → I c) (hb : I b) : I c := by
  induction xs generalizing b with
  | nil =>
    rw [List.foldlM_nil, gives_pure] at h
    exact h ▸ hb
  | cons x xs ih =>
    rw [List.foldlM_cons, gives_bind] at h
    obtain ⟨d, hd, h⟩ := h
    have hd := hstep b x d List.mem_cons_self hb hd
    exact ih h (fun b y c hy => hstep b y c (List.mem_cons_of_mem _ hy)) hd

/-- A part of the state that each step computes in one way is computed by a fold. -/
theorem Gives.foldlM_part {γ : Type} {step : β → α → Resolve β} {p : β → γ} {g : γ → α → γ}
    {xs : List α} {b c : β} (h : (xs.foldlM step b).Gives P c)
    (hstep : ∀ b x c, (step b x).Gives P c → p c = g (p b) x) :
    p c = xs.foldl g (p b) := by
  induction xs generalizing b with
  | nil =>
    rw [List.foldlM_nil, gives_pure] at h
    exact congrArg p h.symm
  | cons x xs ih =>
    rw [List.foldlM_cons, gives_bind] at h
    obtain ⟨d, hd, h⟩ := h
    rw [List.foldl_cons, ← hstep b x d hd]
    exact ih h

/-- A loop whose steps always give the same values gives their fold. -/
theorem Gives.foldlM_eq {step : β → α → Resolve β} {g : β → α → β} {xs : List α} {b c : β}
    (h : (xs.foldlM step b).Gives P c) (hstep : ∀ b x c, (step b x).Gives P c → c = g b x) :
    c = xs.foldl g b :=
  Gives.foldlM_part (p := id) h hstep

/-! ## What a part reports -/

/-- If the part gives a value, all that it reports has the property. -/
def ReportsOnly (P : Finding → Prop) : Resolve α → Prop
  | .ok _ fs => ∀ f ∈ fs, P f
  | .fail _ => True

namespace ReportsOnly

theorem forall_mem (h : r.ReportsOnly P) (hr : r = .ok a fs) : ∀ f ∈ fs, P f := by
  rw [hr] at h
  exact h

theorem pure (a : α) : (Pure.pure a : Resolve α).ReportsOnly P := fun _ hf =>
  absurd hf List.not_mem_nil

theorem singleton {f : Finding} (h : P f) : (ok a [f]).ReportsOnly P :=
  List.forall_mem_singleton.mpr h

theorem lift (x : Except LoadError α) : (liftM x : Resolve α).ReportsOnly P := by
  cases x with
  | ok a => exact pure a
  | error e => trivial

theorem reportIf {f : Finding} (c : Bool) (h : P f) : (reportIf c f).ReportsOnly P := by
  intro g hg
  split_ifs at hg with hc
  · exact List.mem_singleton.mp hg ▸ h
  · exact absurd hg List.not_mem_nil

theorem mono {Q : Finding → Prop} (h : r.ReportsOnly P) (hPQ : ∀ f, P f → Q f) :
    r.ReportsOnly Q := by
  cases r with
  | ok a fs => exact fun f hf => hPQ f (h f hf)
  | fail e => trivial

theorem after (h : r.ReportsOnly P) (hfs : ∀ f ∈ fs, P f) : (r.after fs).ReportsOnly P := by
  cases r with
  | ok a gs => exact List.forall_mem_append.mpr ⟨hfs, h⟩
  | fail e => trivial

theorem bind {f : α → Resolve β} (h : r.ReportsOnly P) (hf : ∀ a, (f a).ReportsOnly P) :
    (r >>= f).ReportsOnly P := by
  cases r with
  | ok a fs => exact (hf a).after h
  | fail e => trivial

/-- What only asks for a shape can stand in front of any part. -/
theorem lift_bind {x : Except LoadError α} {f : α → Resolve β} (hf : ∀ a, (f a).ReportsOnly P) :
    (liftM x >>= f : Resolve β).ReportsOnly P := (lift x).bind hf

theorem foldlM {step : β → α → Resolve β} {xs : List α}
    (h : ∀ b, ∀ x ∈ xs, (step b x).ReportsOnly P) (b : β) : (xs.foldlM step b).ReportsOnly P := by
  induction xs generalizing b with
  | nil => exact pure b
  | cons x xs ih =>
    rw [List.foldlM_cons]
    exact (h b x List.mem_cons_self).bind fun c =>
      ih (fun b y hy => h b y (List.mem_cons_of_mem _ hy)) c

end ReportsOnly

/-! ## Acceptance -/

/-- The part gives a value. -/
def Accepted (r : Resolve α) : Prop := ∃ a, r.Gives (fun _ => True) a

theorem Gives.accepted (h : r.Gives P a) : r.Accepted := by
  obtain ⟨fs, hr, -⟩ := h
  exact ⟨a, fs, hr, fun _ _ => trivial⟩

@[simp] theorem accepted_ok : (ok a fs).Accepted := ⟨a, by simp⟩

@[simp] theorem accepted_pure : (pure a : Resolve α).Accepted := ⟨a, by simp⟩

@[simp] theorem not_accepted_fail {e : LoadError} : ¬ (fail e : Resolve α).Accepted := by
  rintro ⟨a, h⟩
  exact not_gives_fail h

@[simp] theorem accepted_report {f : Finding} : (report f).Accepted := accepted_ok

@[simp] theorem accepted_lift {x : Except LoadError α} :
    (liftM x : Resolve α).Accepted ↔ ∃ a, x = .ok a := by
  simp [Accepted]

theorem accepted_bind {f : α → Resolve β} :
    (r >>= f).Accepted ↔ ∃ a, r.Gives (fun _ => True) a ∧ (f a).Accepted := by
  simp only [Accepted, gives_bind]
  exact ⟨fun ⟨b, a, hr, hf⟩ => ⟨a, hr, b, hf⟩, fun ⟨a, hr, b, hf⟩ => ⟨b, a, hr, hf⟩⟩

/-- Where every value of the first part leaves the same condition for the rest. -/
theorem accepted_bind_iff {f : α → Resolve β} {p q : Prop} (hr : r.Accepted ↔ p)
    (hf : ∀ a, r.Gives (fun _ => True) a → ((f a).Accepted ↔ q)) :
    (r >>= f).Accepted ↔ p ∧ q := by
  rw [accepted_bind, ← hr]
  constructor
  · rintro ⟨a, ha, hfa⟩
    exact ⟨⟨a, ha⟩, (hf a ha).mp hfa⟩
  · rintro ⟨⟨a, ha⟩, hq⟩
    exact ⟨a, ha, (hf a ha).mpr hq⟩

/-- What is always accepted can follow any part. -/
theorem accepted_bind_left {f : α → Resolve β} (hf : ∀ a, (f a).Accepted) :
    (r >>= f).Accepted ↔ r.Accepted := by
  simp only [accepted_bind, hf, and_true]
  rfl

/-- What is always accepted can stand in front of any part. -/
theorem accepted_bind_right {f : α → Resolve β} {q : Prop} (hr : r.Accepted)
    (hf : ∀ a, (f a).Accepted ↔ q) : (r >>= f).Accepted ↔ q := by
  rw [accepted_bind_iff (iff_true_intro hr) fun a _ => hf a, true_and]

/-- A loop whose steps do not depend on what came before is accepted step by step. -/
theorem accepted_foldlM {step : β → α → Resolve β} {Q : α → Prop} {xs : List α}
    (hstep : ∀ b, ∀ x ∈ xs, (step b x).Accepted ↔ Q x) (b : β) :
    (xs.foldlM step b).Accepted ↔ ∀ x ∈ xs, Q x := by
  induction xs generalizing b with
  | nil => simp
  | cons x xs ih =>
    rw [List.foldlM_cons, List.forall_mem_cons]
    exact accepted_bind_iff (hstep b x List.mem_cons_self) fun c _ =>
      ih (fun b y hy => hstep b y (List.mem_cons_of_mem _ hy)) c

theorem accepted_foldlM_of {step : β → α → Resolve β} {xs : List α}
    (hstep : ∀ b x, (step b x).Accepted) (b : β) : (xs.foldlM step b).Accepted := by
  have hiff : ∀ b, ∀ x ∈ xs, (step b x).Accepted ↔ True := fun b x _ => iff_true_intro (hstep b x)
  exact (accepted_foldlM hiff b).mpr fun _ _ => trivial

/-! ## How a part fails -/

/-- If the part fails, its error has the property. -/
def FailsOnly (Q : LoadError → Prop) : Resolve α → Prop
  | .ok _ _ => True
  | .fail e => Q e

namespace FailsOnly

variable {Q : LoadError → Prop}

theorem of_accepted (h : r.Accepted) : r.FailsOnly Q := by
  cases r with
  | ok a fs => trivial
  | fail e => exact absurd h not_accepted_fail

theorem pure (a : α) : (Pure.pure a : Resolve α).FailsOnly Q := trivial

theorem after (h : r.FailsOnly Q) : (r.after fs).FailsOnly Q := by
  cases r with
  | ok a gs => trivial
  | fail e => exact h

/-- The second part may rely on the value of the first. -/
theorem bind {f : α → Resolve β} (h : r.FailsOnly Q)
    (hf : ∀ a, r.Gives (fun _ => True) a → (f a).FailsOnly Q) : (r >>= f).FailsOnly Q := by
  cases r with
  | ok a fs => exact (hf a (gives_ok.mpr ⟨rfl, fun _ _ => trivial⟩)).after
  | fail e => exact h

theorem lift {x : Except LoadError α} (hx : ∀ e, x = .error e → Q e) :
    (liftM x : Resolve α).FailsOnly Q := by
  cases x with
  | ok a => exact pure a
  | error e => exact hx e rfl

theorem lift_bind {x : Except LoadError α} {f : α → Resolve β} (hx : ∀ e, x = .error e → Q e)
    (hf : ∀ a, x = .ok a → (f a).FailsOnly Q) : (liftM x >>= f : Resolve β).FailsOnly Q :=
  (lift hx).bind fun a ha => hf a (gives_lift.mp ha)

theorem foldlM {step : β → α → Resolve β} {xs : List α}
    (h : ∀ b, ∀ x ∈ xs, (step b x).FailsOnly Q) (b : β) : (xs.foldlM step b).FailsOnly Q := by
  induction xs generalizing b with
  | nil => exact pure b
  | cons x xs ih =>
    rw [List.foldlM_cons]
    refine (h b x List.mem_cons_self).bind fun c _ => ?_
    exact ih (fun b y hy => h b y (List.mem_cons_of_mem _ hy)) c

end FailsOnly

/-! ## Sections of named things -/

section Declarations

variable {again : String → Finding} {resolve : Json.Location → String → Json → Resolve α}
  {here : Json.Location}

/-- What a member other than a comment adds to a map. -/
theorem declare_of_not_isComment {e : String × Json} (hc : ¬ isComment e.1 = true) (m : NameMap α) :
    declare again resolve here m e = resolve (here.key e.1) e.1 e.2 >>= fun a =>
      ok (m.insert e.1 a) (if m.contains e.1 then [again e.1] else []) := by
  rw [declare, if_neg hc]
  refine bind_congr fun a => ?_
  exact congrArg (ok _) (List.append_nil _)

/-- What holds of each declared value holds of every entry of the section. -/
theorem Gives.declareAll {ms : Json.Members} {m : NameMap α} {Q : String → α → Prop}
    (h : (declareAll again resolve here ms).Gives P m)
    (hQ : ∀ name v a, (resolve (here.key name) name v).Gives P a → Q name a) : m.All Q := by
  refine Gives.foldlM (I := fun m => m.All Q) h (fun m e m' _ hm hstep => ?_) NameMap.All.empty
  unfold declare at hstep
  split_ifs at hstep with hc
  · rw [gives_pure] at hstep
    exact hstep ▸ hm
  · simp only [gives_bind, gives_reportIf, gives_pure] at hstep
    obtain ⟨a, ha, -, -, rfl⟩ := hstep
    exact hm.insert (hQ e.1 e.2 a ha)

theorem Gives.resolveSection {v : Json} {m : NameMap α} {Q : String → α → Prop}
    (h : (resolveSection again resolve here v).Gives P m)
    (hQ : ∀ name v a, (resolve (here.key name) name v).Gives P a → Q name a) : m.All Q := by
  unfold BuildVocabulary.resolveSection at h
  rw [gives_bind] at h
  obtain ⟨ms, -, h⟩ := h
  exact h.declareAll hQ

/-- A section reports what its members report, and names that it has already. -/
theorem ReportsOnly.declareAll {ms : Json.Members} (hagain : ∀ name, P (again name))
    (h : ∀ name v, (resolve (here.key name) name v).ReportsOnly P) :
    (declareAll again resolve here ms).ReportsOnly P := by
  refine .foldlM (fun m e _ => ?_) _
  unfold declare
  split_ifs
  · exact .pure _
  · exact (h e.1 e.2).bind fun _ => .bind (.reportIf _ (hagain e.1)) fun _ => .pure _

theorem ReportsOnly.resolveSection {v : Json} (hagain : ∀ name, P (again name))
    (h : ∀ name v, (resolve (here.key name) name v).ReportsOnly P) :
    (resolveSection again resolve here v).ReportsOnly P :=
  .lift_bind fun _ => .declareAll hagain h

end Declarations

end BuildVocabulary.Resolve

import BuildVocabulary.Proofs.Resolve
import BuildVocabulary.Schema.Load

/-!
# Steps that keep to a part of the model

All steps of loading work on one outcome. A step may still read and change only a part of the model
and only add to the diagnostics, so that it is told by a function of that part. Steps of this kind
are closed under sequence and loops.

* `Part`: what can be read and replaced on its own;
* `Loading.ActsOn`: what a step does is told by what it does to a part;
* `Loading.Returns`, `Loading.Updates`: steps that leave the part, and steps without a value;
* `Loading.Confined`: a step reads and changes a part of the model and nothing else;
* `Loading.ActsOn.bind`, `Loading.Updates.bind`, `Loading.ActsOn.foldMembers`: steps put together.
-/

namespace BuildVocabulary

open Json (Location Members)

variable {α β γ : Type}

/-! ## Parts of the model -/

/-- A part of the model that can be read and replaced on its own. -/
structure Part (α : Type) where
  get : Model → α
  put : α → Model → Model
  get_put : ∀ a m, get (put a m) = a
  put_get : ∀ m, put (get m) m = m
  put_put : ∀ a b m, put a (put b m) = put a m

namespace Part

def nothing : Part Unit where
  get _ := ()
  put _ m := m
  get_put _ _ := rfl
  put_get _ := rfl
  put_put _ _ _ := rfl

def whole : Part Model where
  get m := m
  put m _ := m
  get_put _ _ := rfl
  put_get _ := rfl
  put_put _ _ _ := rfl

def imports : Part (List String) where
  get m := m.imports
  put a m := { m with imports := a }
  get_put _ _ := rfl
  put_get _ := rfl
  put_put _ _ _ := rfl

def properties : Part (NameMap Property) where
  get m := m.properties
  put a m := { m with properties := a }
  get_put _ _ := rfl
  put_get _ := rfl
  put_put _ _ _ := rfl

def items : Part (NameMap Item) where
  get m := m.items
  put a m := { m with items := a }
  get_put _ _ := rfl
  put_get _ := rfl
  put_put _ _ _ := rfl

def targets : Part (NameMap Target) where
  get m := m.targets
  put a m := { m with targets := a }
  get_put _ _ := rfl
  put_get _ := rfl
  put_put _ _ _ := rfl

/-- The part is a section of entities, which are looked up and added by their names. -/
structure Holds (p : Part (NameMap α)) (s : Section) (entity : α → Entity) : Prop where
  find?_eq : ∀ m name, m.find? s name = ((p.get m).find? name).map entity
  add_eq : ∀ m a, m.add (entity a) = p.put ((p.get m).insert (entity a).name a) m

theorem holds_properties : properties.Holds .properties .property :=
  ⟨fun _ _ => rfl, fun _ _ => rfl⟩

theorem holds_items : items.Holds .items .item := ⟨fun _ _ => rfl, fun _ _ => rfl⟩

theorem holds_targets : targets.Holds .targets .target := ⟨fun _ _ => rfl, fun _ _ => rfl⟩

end Part

/-! ## Steps that act on a part -/

/-- What an outcome becomes when a part of its model is resolved: the new part stands in place of
the old one, and the findings follow the diagnostics that were there. -/
def Resolve.into (p : Part α) (o : Outcome) : Resolve (β × α) → Except LoadError (β × Outcome)
  | .ok (b, a) fs => .ok (b, ⟨p.put a o.model, o.diagnostics ++ fs.map Finding.diagnostic⟩)
  | .fail e => .error e

namespace Loading

variable {p : Part α} {step : Loading β} {f g : α → Resolve (β × α)}

/-- On every outcome the step does what a function of the part says, and nothing else. -/
def ActsOn (p : Part α) (step : Loading β) (f : α → Resolve (β × α)) : Prop :=
  ∀ o, step.run o = (f (p.get o.model)).into p o

/-- The step reads no more of the outcome than a part of the model, leaves the rest of the model as
it is, and only adds to the diagnostics. -/
def Confined (p : Part α) (step : Loading β) : Prop := ∃ f, ActsOn p step f

/-- The step gives the value that something resolves to, and leaves the part as it is. -/
def Returns (p : Part α) (step : Loading β) (r : Resolve β) : Prop :=
  ActsOn p step fun a => (·, a) <$> r

/-- The step replaces the part by what it resolves to. -/
def Updates (p : Part α) (step : Loading Unit) (f : α → Resolve α) : Prop :=
  ActsOn p step fun a => ((), ·) <$> f a

namespace ActsOn

theorem confined (h : ActsOn p step f) : Confined p step := ⟨f, h⟩

theorem congr (h : ActsOn p step f) (hfg : ∀ a, f a = g a) : ActsOn p step g := by
  have hsame : f = g := funext hfg
  exact hsame ▸ h

/-! ### Primitive steps -/

theorem pure (b : β) : ActsOn p (Pure.pure b) fun a => Pure.pure (b, a) := by
  intro o
  change Except.ok (b, o) =
    .ok (b, (⟨p.put (p.get o.model) o.model, o.diagnostics ++ []⟩ : Outcome))
  rw [p.put_get, List.append_nil]

theorem look {read : Model → β} {r : α → β} (h : ∀ m, read m = r (p.get m)) :
    ActsOn p (look read) fun a => Pure.pure (r a, a) := by
  intro o
  change Except.ok (read o.model, o) = _
  rw [h]
  exact pure (r (p.get o.model)) o

theorem change {c : Model → Model} {r : α → α} (h : ∀ m, c m = p.put (r (p.get m)) m) :
    ActsOn p (change c) fun a => Pure.pure ((), r a) := by
  intro o
  change Except.ok ((), (⟨c o.model, o.diagnostics⟩ : Outcome)) =
    .ok ((), ⟨p.put (r (p.get o.model)) o.model, o.diagnostics ++ []⟩)
  rw [h, List.append_nil]

theorem report (x : Finding) : ActsOn p (report x) fun a => .ok ((), a) [x] := by
  intro o
  change Except.ok ((), (⟨o.model, o.diagnostics ++ [x.diagnostic]⟩ : Outcome)) =
    .ok ((), ⟨p.put (p.get o.model) o.model, o.diagnostics ++ [x.diagnostic]⟩)
  rw [p.put_get]

theorem reportIf (c : Bool) (x : Finding) :
    ActsOn p (reportIf c x) fun a => .ok ((), a) (if c then [x] else []) := by
  cases c with
  | true => exact report x
  | false => exact pure ()

theorem fail (e : LoadError) : ActsOn p (throw e : Loading β) fun _ => .fail e := fun _ => rfl

/-! ### Steps in sequence -/

theorem bind {next : β → Loading γ} {k : β → α → Resolve (γ × α)} (h : ActsOn p step f)
    (hnext : ∀ b, ActsOn p (next b) (k b)) :
    ActsOn p (step >>= next) fun a => f a >>= fun r => k r.1 r.2 := by
  intro o
  change _ = (f (p.get o.model) >>= fun r => k r.1 r.2).into p o
  rw [StateT.run_bind, h o]
  cases f (p.get o.model) with
  | fail e => rfl
  | ok r fs =>
    obtain ⟨b, a⟩ := r
    change (next b).run _ = ((k b a).after fs).into p o
    rw [hnext b, p.get_put]
    cases k b a with
    | fail e => rfl
    | ok r gs => simp only [Resolve.after_ok, Resolve.into, p.put_put, List.map_append,
        List.append_assoc]

theorem foldlM {ι : Type} {step : β → ι → Loading β} {f : β → ι → α → Resolve (β × α)}
    (h : ∀ b x, ActsOn p (step b x) (f b x)) (xs : List ι) (b : β) :
    ActsOn p (xs.foldlM step b) fun a => xs.foldlM (fun r x => f r.1 x r.2) (b, a) := by
  induction xs generalizing b with
  | nil => exact pure b
  | cons x xs ih =>
    simp only [List.foldlM_cons]
    exact (h b x).bind ih

end ActsOn

/-! ## Steps that return a value -/

namespace Returns

variable {r r' : Resolve β}

theorem confined (h : Returns p step r) : Confined p step := ActsOn.confined h

theorem congr (h : Returns p step r) (hr : r = r') : Returns p step r' := hr ▸ h

theorem pure (b : β) : Returns p (Pure.pure b) (Pure.pure b) :=
  (ActsOn.pure b).congr fun a => (map_pure (·, a) b).symm

theorem report (x : Finding) : Returns p (report x) (Resolve.report x) := ActsOn.report x

theorem reportIf (c : Bool) (x : Finding) : Returns p (reportIf c x) (Resolve.reportIf c x) :=
  (ActsOn.reportIf c x).congr fun a => (Resolve.map_ok (·, a) () _).symm

theorem lift (x : Except LoadError β) : Returns p (liftM x) (liftM x) := by
  cases x with
  | ok b => exact .pure b
  | error e => exact ActsOn.fail e

theorem bind {next : β → Loading γ} {k : β → Resolve γ} (h : Returns p step r)
    (hnext : ∀ b, Returns p (next b) (k b)) : Returns p (step >>= next) (r >>= k) := by
  refine (ActsOn.bind h hnext).congr fun a => ?_
  rw [bind_map_left, map_bind]

theorem take (r : Resolve β) : Returns p (take r) r := by
  have hreports (fs : List Finding) : Returns p (fs.forM Loading.report) (.ok () fs) := by
    induction fs with
    | nil => exact .pure ()
    | cons x xs ih => exact (Returns.report x).bind fun _ => ih
  cases r with
  | ok b fs =>
    have hvalue : (Resolve.ok () fs >>= fun _ => Pure.pure b) = .ok b fs :=
      congrArg (Resolve.ok b) (List.append_nil fs)
    exact ((hreports fs).bind fun _ => .pure b).congr hvalue
  | fail e => exact ActsOn.fail e

end Returns

/-! ## Steps that update a part -/

section Updates

variable {s t : Loading Unit} {f g : α → Resolve α}

theorem Updates.confined (h : Updates p s f) : Confined p s := ActsOn.confined h

theorem Updates.congr (h : Updates p s f) (hfg : ∀ a, f a = g a) : Updates p s g :=
  ActsOn.congr h fun a => congrArg _ (hfg a)

theorem Updates.pure : Updates p (pure ()) Pure.pure :=
  (ActsOn.pure ()).congr fun a => (map_pure _ a).symm

theorem Updates.change {c : Model → Model} {r : α → α} (h : ∀ m, c m = p.put (r (p.get m)) m) :
    Updates p (change c) fun a => Pure.pure (r a) :=
  (ActsOn.change h).congr fun a => (map_pure _ (r a)).symm

theorem Updates.report (x : Finding) : Updates p (report x) fun a => .ok a [x] :=
  (ActsOn.report x).congr fun a => (Resolve.map_ok _ a [x]).symm

theorem Updates.reportIf (c : Bool) (x : Finding) :
    Updates p (reportIf c x) fun a => .ok a (if c then [x] else []) :=
  (ActsOn.reportIf c x).congr fun a => (Resolve.map_ok _ a _).symm

theorem Updates.bind (hs : Updates p s f) (ht : Updates p t g) :
    Updates p (s >>= fun _ => t) fun a => f a >>= g := by
  refine (ActsOn.bind hs fun _ => ht).congr fun a => ?_
  rw [bind_map_left, map_bind]

/-- First a step that gives the value of a resolved part, then one that depends on the value. -/
theorem Updates.bind_value {step : Loading β} {r : Resolve β} {next : β → Loading Unit}
    {k : β → α → Resolve α} (h : Returns p step r)
    (hnext : ∀ b, Updates p (next b) (k b)) :
    Updates p (step >>= next) fun a => r >>= fun b => k b a := by
  refine (ActsOn.bind h hnext).congr fun a => ?_
  rw [bind_map_left, map_bind]

theorem Updates.forM {ι : Type} {step : ι → Loading Unit} {f : ι → α → Resolve α}
    (h : ∀ x, Updates p (step x) (f x)) (xs : List ι) :
    Updates p (xs.forM step) fun a => xs.foldlM (fun a x => f x a) a := by
  induction xs with
  | nil => exact .pure
  | cons x xs ih =>
    simp only [List.foldlM_cons]
    exact (h x).bind ih

theorem Returns.sectionOr {step : Location → Json → Loading β} {r : Location → Json → Resolve β}
    (h : ∀ here v, Returns p (step here v) (r here v)) (ms : Members) (key : String)
    (absent : β) : Returns p (sectionOr ms key absent step) (sectionOr ms key absent r) := by
  unfold BuildVocabulary.sectionOr
  cases ms.find? key with
  | none => exact .pure absent
  | some v => exact h _ v

theorem Updates.sectionOr {step : Location → Json → Loading Unit}
    {f : Location → Json → α → Resolve α} (h : ∀ here v, Updates p (step here v) (f here v))
    (ms : Members) (key : String) :
    Updates p (sectionOr ms key () step) fun a => sectionOr ms key a fun here v => f here v a := by
  unfold BuildVocabulary.sectionOr
  cases ms.find? key with
  | none => exact .pure
  | some v => exact h _ v

end Updates

/-! ## From a part to the whole model -/

theorem ActsOn.widen (h : ActsOn p step f) :
    ActsOn .whole step fun m => (fun r => (r.1, p.put r.2 m)) <$> f (p.get m) := by
  intro o
  rw [h o]
  change _ = ((fun r => (r.1, p.put r.2 o.model)) <$> f (p.get o.model)).into .whole o
  cases f (p.get o.model) with
  | fail e => rfl
  | ok r fs =>
    rw [Resolve.map_ok]
    rfl

theorem Updates.widen {s : Loading Unit} {f : α → Resolve α} (h : Updates p s f) :
    Updates .whole s fun m => (p.put · m) <$> f (p.get m) := by
  refine (ActsOn.widen h).congr fun m => ?_
  rw [Functor.map_map, Functor.map_map]

/-! ## Loops over members -/

theorem ActsOn.foldMembers {step : β → Location → String → Json → Loading β}
    {f : β → Location → String → Json → α → Resolve (β × α)}
    (h : ∀ b there name w, ActsOn p (step b there name w) (f b there name w)) (b : β)
    (here : Location) (v : Json) :
    ActsOn p (foldMembers step b here v) fun a =>
      liftM (Json.requireObject here v) >>= fun ms : Members =>
        ms.foldlM (fun r e =>
          if isComment e.1 then Pure.pure r else f r.1 (here.key e.1) e.1 e.2 r.2) (b, a) := by
  have hmember (b : β) (e : String × Json) :
      ActsOn p (if isComment e.1 then Pure.pure b else step b (here.key e.1) e.1 e.2) fun a =>
        if isComment e.1 then Pure.pure (b, a) else f b (here.key e.1) e.1 e.2 a := by
    split_ifs
    · exact .pure b
    · exact h b _ e.1 e.2
  refine (ActsOn.bind (Returns.lift _) fun ms => ActsOn.foldlM hmember ms b).congr fun a => ?_
  rw [bind_map_left]

theorem Updates.foldMembers {step : Location → String → Json → Loading Unit}
    {f : Location → String → Json → α → Resolve α}
    (h : ∀ there name w, Updates p (step there name w) (f there name w)) (here : Location)
    (v : Json) :
    Updates p (foldMembers (fun _ => step) () here v) fun a =>
      liftM (Json.requireObject here v) >>= fun ms : Members =>
        ms.foldlM (fun a e =>
          if isComment e.1 then Pure.pure a else f (here.key e.1) e.1 e.2 a) a := by
  refine (ActsOn.foldMembers (fun _ => h) () here v).congr fun a => ?_
  rw [map_bind]
  refine bind_congr fun ms => Resolve.foldlM_map_eq _ (fun a e => ?_) ms a
  split_ifs
  · exact (map_pure _ a).symm
  · rfl

end Loading

end BuildVocabulary

import BuildVocabulary.Schema.Failure
import BuildVocabulary.Schema.Finding

/-!
# Resolving parts of a document

A part of a document resolves to a value together with findings in the order in which they were
made, or fails. `Resolve` is a monad: findings of later parts follow those of earlier ones, and the
first failure ends all.

* `Resolve.ok_bind`, `Resolve.fail_bind`: what a sequence of two parts gives;
* `Resolve.after_bind`: findings made earlier stay in front.
-/

namespace BuildVocabulary

/-- A value with findings, or a failure. -/
inductive Resolve (α : Type) where
  | ok (value : α) (findings : List Finding)
  | fail (e : LoadError)
  deriving DecidableEq

namespace Resolve

variable {α β γ : Type}

/-- A value without findings, or a failure. -/
def ofExcept : Except LoadError α → Resolve α
  | .ok a => ok a []
  | .error e => fail e

def report (f : Finding) : Resolve Unit := ok () [f]

/-- A finding that is made under a condition. -/
def reportIf (c : Bool) (f : Finding) : Resolve Unit := ok () (if c then [f] else [])

/-- Adds findings in front of those of a result. -/
def after (fs : List Finding) : Resolve α → Resolve α
  | ok a gs => ok a (fs ++ gs)
  | fail e => fail e

/-- Resolves a part, then one that depends on its value. -/
def bind (r : Resolve α) (f : α → Resolve β) : Resolve β :=
  match r with
  | ok a fs => (f a).after fs
  | fail e => fail e

instance : Monad Resolve where
  pure a := ok a []
  bind := bind

instance : MonadLift (Except LoadError) Resolve := ⟨ofExcept⟩

/-! ## Sequences of parts -/

@[simp] theorem ok_bind (a : α) (fs : List Finding) (f : α → Resolve β) :
    ok a fs >>= f = (f a).after fs := rfl

@[simp] theorem fail_bind (e : LoadError) (f : α → Resolve β) : fail e >>= f = fail e := rfl

@[simp] theorem after_ok (fs gs : List Finding) (a : α) : (ok a gs).after fs = ok a (fs ++ gs) :=
  rfl

@[simp] theorem after_fail (fs : List Finding) (e : LoadError) :
    (fail e : Resolve α).after fs = fail e := rfl

@[simp] theorem after_nil (r : Resolve α) : r.after [] = r := by
  cases r <;> rfl

@[simp] theorem after_after (fs gs : List Finding) (r : Resolve α) :
    (r.after gs).after fs = r.after (fs ++ gs) := by
  cases r <;> simp

theorem after_bind (fs : List Finding) (r : Resolve α) (f : α → Resolve β) :
    r.after fs >>= f = (r >>= f).after fs := by
  cases r <;> simp

theorem bind_assoc (r : Resolve α) (f : α → Resolve β) (g : β → Resolve γ) :
    r >>= f >>= g = r >>= fun a => f a >>= g := by
  cases r <;> simp [after_bind]

theorem map_id (r : Resolve α) : id <$> r = r := by
  change r >>= (fun a => ok (id a) []) = r
  cases r <;> simp

instance : LawfulMonad Resolve :=
  LawfulMonad.mk' Resolve map_id (fun a f => after_nil (f a)) bind_assoc

end Resolve

end BuildVocabulary

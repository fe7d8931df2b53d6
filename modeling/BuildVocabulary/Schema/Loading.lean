import BuildVocabulary.Model
import BuildVocabulary.Schema.Resolve
import BuildVocabulary.Schema.Shape

/-!
# Steps of loading

A document is loaded by steps that share one outcome: the model as far as it is built, and the
diagnostics made so far. A step of `Loading` may read and change both, or fail. What a single entry
declares is resolved on its own, and `Loading.take` passes on what it gives and reports.

* `Loading.look`, `Loading.change`: reading and changing the model;
* `Loading.report`, `Loading.take`: adding diagnostics;
* `Loading.foldMembers`, `Loading.forElements`: a step for each member or element of a section.
-/

namespace BuildVocabulary

open Json (Location)

/-- A model and what is worth reporting about how it was written. -/
structure Outcome where
  model : Model := {}
  diagnostics : Diagnostics := []
  deriving DecidableEq

/-- A step of loading: it may read and change the whole outcome so far, or fail. -/
abbrev Loading := StateT Outcome (Except LoadError)

namespace Loading

variable {α β : Type}

/-- Reads something off the model. -/
def look (read : Model → α) : Loading α := do
  let o ← get
  pure (read o.model)

def change (f : Model → Model) : Loading Unit := modify fun o => { o with model := f o.model }

def report (f : Finding) : Loading Unit :=
  modify fun o => { o with diagnostics := o.diagnostics ++ [f.diagnostic] }

/-- Reports a finding under a condition. -/
def reportIf (c : Bool) (f : Finding) : Loading Unit := if c then report f else pure ()

/-- Takes the value of a part that is resolved on its own, and reports its findings in order. -/
def take : Resolve α → Loading α
  | .ok a fs => do
    fs.forM report
    pure a
  | .fail e => throw e

/-- Goes through the members of an object with a value that each may change. Comments are left
out. -/
def foldMembers (step : β → Location → String → Json → Loading β) (b : β) (here : Location)
    (v : Json) : Loading β := do
  let ms ← Json.requireObject here v
  ms.foldlM (fun b e => if isComment e.1 then pure b else step b (here.key e.1) e.1 e.2) b

/-- Goes through the elements of an array, which are counted from `i`. -/
def forElements (step : Location → Json → Loading Unit) (here : Location) (i : Nat) :
    List Json → Loading Unit
  | [] => pure ()
  | v :: vs => do
    step (here.index i) v
    forElements step here (i + 1) vs

end Loading

end BuildVocabulary

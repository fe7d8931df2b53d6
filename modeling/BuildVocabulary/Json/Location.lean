import BuildVocabulary.Json.Basic

/-!
# Locations in a document

A `Location` is a path of keys and indices from the root. `Location.text` writes it with slashes
between its steps, and `Json.at?` follows it.

* `Json.at?_append`: following a longer location is following its parts one after the other.
-/

namespace BuildVocabulary.Json

/-- One step into a value: a key of an object or an index of an array. -/
inductive Step where
  | key (k : String)
  | index (i : Nat)
  deriving DecidableEq, Repr

/-- A step as written in a location. -/
def Step.text : Step → String
  | .key k => k
  | .index i => toString i

/-- A path from the root, outermost step first. -/
abbrev Location := List Step

namespace Location

def key (here : Location) (k : String) : Location := here ++ [.key k]

def index (here : Location) (i : Nat) : Location := here ++ [.index i]

/-- The steps with a slash between neighbours. -/
def text (here : Location) : String := "/".intercalate (here.map Step.text)

end Location

/-- The value that one step leads to. -/
def step? : Step → Json → Option Json
  | .key k, .object ms => Members.find? ms k
  | .index i, .array vs => vs[i]?
  | _, _ => none

def at? (doc : Json) (here : Location) : Option Json := here.foldlM (fun v s => step? s v) doc

theorem at?_append (doc : Json) (here there : Location) :
    doc.at? (here ++ there) = (doc.at? here).bind (·.at? there) := by
  simp [at?, List.foldlM_append]

end BuildVocabulary.Json

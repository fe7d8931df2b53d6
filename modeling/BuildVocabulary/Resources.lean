/-!
# Named texts

`Resources` holds schema texts under identifiers, which are compared exactly. Identifiers keep the
order in which they were first registered, and the last text registered for one wins.
-/

namespace BuildVocabulary

/-- Texts under exact identifiers, in order of first registration. -/
structure Resources where
  entries : List (String × String) := []
  deriving DecidableEq, Repr, Inhabited

namespace Resources

/-- Replaces the text of an identifier, or appends it. -/
def register (id text : String) : List (String × String) → List (String × String)
  | [] => [(id, text)]
  | e :: es => if e.1 = id then (e.1, text) :: es else e :: register id text es

def insert (r : Resources) (id text : String) : Resources := ⟨register id text r.entries⟩

def find? (r : Resources) (id : String) : Option String := r.entries.lookup id

def contains (r : Resources) (id : String) : Bool := r.entries.any fun e => e.1 = id

/-- The identifiers, in order of first registration. -/
def ids (r : Resources) : List String := r.entries.map Prod.fst

def size (r : Resources) : Nat := r.entries.length

def isEmpty (r : Resources) : Bool := r.entries.isEmpty

end Resources

end BuildVocabulary

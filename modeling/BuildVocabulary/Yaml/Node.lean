/-!
# Configuration documents

A `Node` is a configuration document as written: scalars keep their text and whether they stand
plain, mappings keep the order of their entries and repeated keys.
-/

namespace BuildVocabulary.Yaml

/-- A value of a configuration document. -/
inductive Node where
  | scalar (isPlain : Bool) (text : String)
  | sequence (items : List Node)
  | mapping (entries : List (Node × Node))
  deriving Repr, BEq, Inhabited

/-- The value of a key without a text. -/
def Node.blank : Node := .scalar true ""

def Node.text? : Node → Option String
  | .scalar _ text => some text
  | _ => none

end BuildVocabulary.Yaml

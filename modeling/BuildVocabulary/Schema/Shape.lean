import BuildVocabulary.Schema.Failure

/-!
# Required shapes

Each function asks a value for one of a few shapes, and fails with the location of the value, what
was expected there and what was found.
-/

namespace BuildVocabulary.Json

variable (here : Location)

/-- The failure of a value that does not meet an expectation. -/
def unexpected (expected : Expectation) (v : Json) : LoadError :=
  .unexpectedShape here expected v.shape

def requireObject : Json → Except LoadError Members
  | .object ms => .ok ms
  | v => .error (unexpected here .object v)

def requireArray : Json → Except LoadError (List Json)
  | .array vs => .ok vs
  | v => .error (unexpected here .array v)

def requireText : Json → Except LoadError String
  | .text s => .ok s
  | v => .error (unexpected here .string v)

def requireBool : Json → Except LoadError Bool
  | .bool b => .ok b
  | v => .error (unexpected here .boolean v)

/-- The text of a string; `null` stands for no text. -/
def requireText? : Json → Except LoadError (Option String)
  | .null => .ok none
  | .text s => .ok (some s)
  | v => .error (unexpected here .stringOrNull v)

/-- A string, number or boolean as text; `null` stands for no text. -/
def requireScalar? : Json → Except LoadError (Option String)
  | .null => .ok none
  | .text s => .ok (some s)
  | .bool b => .ok (some (if b then "true" else "false"))
  | .number n => .ok (some n.text)
  | v => .error (unexpected here .scalar v)

/-- The texts of an array of strings, whose elements are counted from `i`. -/
def requireTexts (i : Nat) : List Json → Except LoadError (List String)
  | [] => .ok []
  | v :: vs => do
    let s ← requireText (here.index i) v
    let ss ← requireTexts (i + 1) vs
    pure (s :: ss)

def requireStrings : Json → Except LoadError (List String)
  | .text s => .ok [s]
  | .array vs => requireTexts here 0 vs
  | v => .error (unexpected here .stringOrStrings v)

end BuildVocabulary.Json

namespace BuildVocabulary

/-- Keys that begin with `#` are comments. -/
def isComment (key : String) : Bool := key.toList.head? == some '#'

/-- Keys that begin with `$` are directives where values are declared by key. -/
def isDirective (key : String) : Bool := key.toList.head? == some '$'

end BuildVocabulary

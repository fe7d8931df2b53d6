import BuildVocabulary.Text.Case
import BuildVocabulary.Text.Segments

/-!
# Custom types

A custom type is an enumeration of literal values, which are found ignoring ASCII case. Its name is
made of segments of ASCII letters and digits with single dashes between them: `isTypeName` reads a
name from left to right.
-/

namespace BuildVocabulary

/-- A permitted value. -/
structure TypeValue where
  value : String
  description : Option String := none
  deriving DecidableEq, Repr

/-- An enumeration of values; inline types may be nameless. -/
structure CustomType where
  name : Option String
  values : List TypeValue := []
  allowUnknown : Bool := false
  deriving DecidableEq, Repr

/-- The first value with this text, ignoring ASCII case. -/
def CustomType.find? (t : CustomType) (value : String) : Option TypeValue :=
  t.values.find? fun v => SameName v.value value

/-- Whether the rest of a name is well formed; `inSegment` says that the current segment has a
character already. -/
def continuesName (inSegment : Bool) : List Char → Bool
  | [] => inSegment
  | c :: cs =>
    if c.isAlphanum then continuesName true cs
    else c == '-' && inSegment && continuesName false cs

/-- The rule for custom type names. -/
def isTypeName (name : String) : Bool := continuesName false name.toList

end BuildVocabulary

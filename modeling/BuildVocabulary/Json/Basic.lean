import BuildVocabulary.Json.Number

/-!
# JSON documents

`Json` is a document as written: the members of an object keep their order. `Shape` is the kind of
a value, and `Members.put` says how a repeated key is read.

* `Members.put_keys`: a repeated key keeps its first position;
* `Members.find?_put_self`: and takes its last value.
-/

namespace BuildVocabulary

/-- A JSON value. Members of an object stand in document order. -/
inductive Json where
  | null
  | bool (b : Bool)
  | number (n : Json.Number)
  | text (s : String)
  | array (items : List Json)
  | object (members : List (String × Json))
  deriving Repr, BEq, Inhabited

namespace Json

abbrev Members := List (String × Json)

/-- The kind of a value. -/
inductive Shape where
  | null
  | boolean
  | number
  | string
  | array
  | object
  deriving DecidableEq, Repr

/-- The kind of a value. -/
def shape : Json → Shape
  | .null => .null
  | .bool _ => .boolean
  | .number _ => .number
  | .text _ => .string
  | .array _ => .array
  | .object _ => .object

def Shape.phrase : Shape → String
  | .null => "null"
  | .boolean => "a boolean"
  | .number => "a number"
  | .string => "a string"
  | .array => "an array"
  | .object => "an object"

namespace Members

def find? (ms : Members) (key : String) : Option Json := ms.lookup key

/-- The keys, in document order. -/
def keys (ms : Members) : List String := ms.map Prod.fst

/-- Adds a member as read: a repeated key keeps its first position and takes the new value. -/
def put (key : String) (value : Json) : Members → Members
  | [] => [(key, value)]
  | m :: ms => if m.1 = key then (key, value) :: ms else m :: put key value ms

theorem put_keys (key : String) (value : Json) (ms : Members) :
    (put key value ms).keys = if key ∈ ms.keys then ms.keys else ms.keys ++ [key] := by
  induction ms with
  | nil => simp [put, keys]
  | cons m ms ih =>
    simp only [keys] at ih
    by_cases h : m.1 = key
    · simp [put, keys, h]
    · have h' : key ≠ m.1 := Ne.symm h
      simp only [put, keys, h, if_false, List.map_cons, List.mem_cons, h', false_or, ih]
      split <;> simp_all

theorem find?_put_self (key : String) (value : Json) (ms : Members) :
    (put key value ms).find? key = some value := by
  induction ms with
  | nil => simp [put, find?]
  | cons m ms ih =>
    by_cases h : m.1 = key
    · simp [put, find?, h]
    · have h' : (key == m.1) = false := beq_false_of_ne (Ne.symm h)
      simp only [put, h, if_false]
      rw [find?, List.lookup_cons, h']
      exact ih

end Members

end Json

end BuildVocabulary

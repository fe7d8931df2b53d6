import BuildVocabulary.Yaml.Scalar

/-!
# Texts with an implicit type

Where types are told from the text alone, some plain scalars are truth values, numbers or no value
at all. A text of this kind that is meant as a text has to be quoted; `isImplicit` finds them.
-/

namespace BuildVocabulary.Yaml

/-- The words for truth values and for no value. -/
def reservedWords : List String :=
  ["true", "True", "TRUE", "false", "False", "FALSE", "", "~", "null", "Null", "NULL"]

/-- Whether a text has a minus sign, and what follows its sign. -/
def splitSign : List Char → Bool × List Char
  | '-' :: cs => (true, cs)
  | '+' :: cs => (false, cs)
  | cs => (false, cs)

/-- The number that one more digit in a base makes of a number. -/
def addDigit? (base n : Nat) (c : Char) : Option Nat :=
  match hexDigit? c with
  | some d => if d < base then some (n * base + d) else none
  | none => none

/-- The number with these digits in a base. -/
def ofDigits? (base : Nat) (cs : List Char) : Option Nat := cs.foldlM (addDigit? base) 0

/-! ## Whole numbers in other bases -/

/-- The base that a text announces, and what follows the announcement. -/
def announcedBase? : List Char → Option (Nat × List Char)
  | '0' :: 'x' :: cs => some (16, cs)
  | '0' :: 'o' :: cs => some (8, cs)
  | '0' :: 'b' :: cs => some (2, cs)
  | _ => none

/-- Whether an unsigned text is a whole number in an announced base that fits 128 bits. -/
def isBased (negative : Bool) (cs : List Char) : Bool :=
  match announcedBase? cs with
  | some (base, ds) =>
    !ds.isEmpty && (ofDigits? base ds).any fun n =>
      if negative then n ≤ Nat.pow 2 127 else n < Nat.pow 2 128
  | none => false

/-! ## Decimal numbers -/

/-- The exponent after its letter: an optional sign and at least one digit. -/
def exponent? (cs : List Char) : Option Int :=
  let (negative, ds) := splitSign cs
  if ds.isEmpty then none
  else (ofDigits? 10 ds).map fun n => if negative then -n else n

/-- The coefficient and exponent of an unsigned decimal. It has a digit before or after its point,
and the point and the exponent may be missing. -/
def decimal? (cs : List Char) : Option (Nat × Int) := do
  let isMark (c : Char) : Bool := c == 'e' || c == 'E'
  let (mantissa, mark) := cs.span (!isMark ·)
  let (integer, point) := mantissa.span (· != '.')
  let fraction := point.drop 1
  let coefficient ← ofDigits? 10 (integer ++ fraction)
  let exponent ← if mark.isEmpty then some 0 else exponent? (mark.drop 1)
  if integer.isEmpty && fraction.isEmpty then none
  else some (coefficient, exponent - fraction.length)

/-- The least magnitude that is beyond the range of doubles. -/
def beyondDouble : Nat := Nat.pow 2 1024 - Nat.pow 2 970

/-- Whether `coefficient * 10 ^ exponent` is in the range of doubles. It has 309 digits before the
point where this is not clear from their number. -/
def inDoubleRange (coefficient : Nat) (exponent : Int) : Bool :=
  let digits : Int := exponent + (Nat.toDigits 10 coefficient).length
  if coefficient = 0 ∨ digits < 309 then true
  else if 309 < digits then false
  else coefficient * Nat.pow 10 exponent.toNat < beyondDouble * Nat.pow 10 (-exponent).toNat

/-- Whether an unsigned text is several digits of which the first is zero. -/
def hasLeadingZero : List Char → Bool
  | '0' :: c :: cs => (c :: cs).all Char.isDigit
  | _ => false

/-! ## All of them -/

def infinities : List String := [".inf", ".Inf", ".INF"]

def notNumbers : List String := [".nan", ".NaN", ".NAN"]

/-- Whether a text reads as a number. -/
def isNumeric (cs : List Char) : Bool :=
  let (negative, unsigned) := splitSign cs
  isBased negative unsigned || hasLeadingZero unsigned ||
    (decimal? unsigned).any (fun (c, e) => inDoubleRange c e) ||
    infinities.contains (String.ofList unsigned) || notNumbers.contains (String.ofList cs)

/-- Whether a plain scalar with this text is told to be something other than a text. -/
def isImplicit (s : String) : Bool := reservedWords.contains s || isNumeric s.toList

end BuildVocabulary.Yaml

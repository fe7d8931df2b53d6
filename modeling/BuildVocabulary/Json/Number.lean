import BuildVocabulary.Decimal.Shortest

/-!
# Numbers of a JSON document

A number is a whole number that fits 64 bits or a double. `Numeral` is a number as written, and
`Numeral.value?` says which number it denotes.

* Whole numbers from `-2 ^ 63` to `2 ^ 64 - 1` without point and exponent stay whole, except `-0`.
* Any other numeral becomes a double: as many leading digits as fit 64 bits are taken as a whole
  number, which is then scaled by a power of ten in double arithmetic.
-/

namespace BuildVocabulary.Json

/-- A number: whole, or a finite double given by its bits. -/
inductive Number where
  | whole (n : Int)
  | double (bits : UInt64)
  deriving DecidableEq, Repr, Inhabited

/-- Doubles are written positionally when their first digit counts `10 ^ -5` to `10 ^ 15`. -/
def doubleLayout : Decimal.Layout := ⟨-5, 15⟩

def Number.text : Number → String
  | .whole n => toString n
  | .double bits => String.ofList (Decimal.textOfBits doubleLayout bits)

/-- A number as written: its sign, the digits before and after the point, and the exponent. -/
structure Numeral where
  negative : Bool
  integer : List Nat
  fraction : Option (List Nat)
  exponent : Option Int

/-- Appends digits to a whole number as long as the result fits 64 bits; also gives the digits
that are left. -/
def absorb (n : Nat) : List Nat → Nat × List Nat
  | [] => (n, [])
  | d :: ds => if n * 10 + d < Nat.pow 2 64 then absorb (n * 10 + d) ds else (n, d :: ds)

/-- A double times a power of ten, or nothing when the result is too large. Powers beyond the
range of doubles are applied in steps. -/
def scale (x : Float) (e : Int) : Option Float :=
  if e < -308 then
    if x == 0 then some x else scale (x / Float.ofScientific 1 false 308) (e + 308)
  else if e < 0 then some (x / Float.ofScientific 1 false e.natAbs)
  else if 308 < e then if x == 0 then some x else none
  else
    let y := x * Float.ofScientific 1 false e.natAbs
    if y.isInf then none else some y
termination_by (-e).toNat
decreasing_by omega

/-- The double with this sign and magnitude. -/
def Number.ofFloat (negative : Bool) (x : Float) : Number :=
  .double (if negative then -x else x).toBits

/-- The number that a numeral denotes, or nothing when it is too large for a double. -/
def Numeral.value? (n : Numeral) : Option Number :=
  let (significand, dropped) := absorb 0 n.integer
  if n.fraction.isNone ∧ n.exponent.isNone ∧ dropped.isEmpty then
    if n.negative then
      if significand = 0 ∨ Nat.pow 2 63 < significand then
        some (.ofFloat true (Float.ofNat significand))
      else some (.whole (-significand))
    else some (.whole significand)
  else
    let digits := n.fraction.getD []
    let (significand, ignored) := absorb significand digits
    let exponent := dropped.length - (digits.length - ignored.length : Nat) + n.exponent.getD 0
    (scale (Float.ofNat significand) exponent).map (.ofFloat n.negative)

end BuildVocabulary.Json

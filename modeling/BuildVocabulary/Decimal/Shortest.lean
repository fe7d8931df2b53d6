/-!
# Shortest decimals

The decimal text of a double is the one with the fewest digits that reads back as the same double.
A positive double is `significand * 2 ^ exponent`; the reals that round to it form an interval,
which contains its ends exactly when the significand is even. The interval is searched on decimal
grids from coarse to fine, in whole numbers throughout.

* `Dyadic.ofBits`: the significand and exponent of a double;
* `Dyadic.shortest`: the first grid with a point in the interval, and the nearest such point;
* `Scientific.text`: digits written out according to a `Layout`.
-/

namespace BuildVocabulary.Decimal

/-- The magnitude `significand * 2 ^ exponent`. `lowerGap` halves the distance to the next smaller
double, as is the case at a power of two. -/
structure Dyadic where
  significand : Nat
  exponent : Int
  lowerGap : Bool

/-- The magnitude of a finite double given by its bits. -/
def Dyadic.ofBits (bits : UInt64) : Dyadic :=
  let fraction : Nat := bits.toNat % Nat.pow 2 52
  let biased : Nat := bits.toNat / Nat.pow 2 52 % Nat.pow 2 11
  if biased = 0 then ⟨fraction, -1074, false⟩
  else ⟨fraction + Nat.pow 2 52, biased - 1075, fraction = 0 ∧ biased ≠ 1⟩

/-- Whether the sign bit is set. -/
def isNegative (bits : UInt64) : Bool := bits.toNat / Nat.pow 2 63 = 1

/-- The decimal `coefficient * 10 ^ exponent`. -/
structure Scientific where
  coefficient : Nat
  exponent : Int

/-- A positive ratio of whole numbers equal to `2 ^ a / 10 ^ b`. -/
def scaling (a b : Int) : Nat × Nat :=
  (Nat.pow 2 a.toNat * Nat.pow 10 (-b).toNat, Nat.pow 2 (-a).toNat * Nat.pow 10 b.toNat)

/-- The multiple of `10 ^ p` nearest to a magnitude among those that round to it, if any; of two
equally near multiples the even one. -/
def Dyadic.onGrid? (d : Dyadic) (p : Int) : Option Nat :=
  let (num, den) := scaling (d.exponent - 2) p
  let value := 4 * d.significand * num
  let lower := (4 * d.significand - if d.lowerGap then 1 else 2) * num
  let upper := (4 * d.significand + 2) * num
  let below := value / den
  let rounds (k : Nat) : Bool :=
    if d.significand % 2 = 0 then lower ≤ k * den ∧ k * den ≤ upper
    else lower < k * den ∧ k * den < upper
  let preferBelow := 2 * value < (2 * below + 1) * den ∨
    (2 * value = (2 * below + 1) * den ∧ below % 2 = 0)
  match rounds below, rounds (below + 1) with
  | true, true => some (if preferBelow then below else below + 1)
  | true, false => some below
  | false, true => some (below + 1)
  | false, false => none

/-- The first of `fuel` grids, from `10 ^ p` to finer ones, with a multiple that rounds to the
magnitude. -/
def Dyadic.search (d : Dyadic) (p : Int) : Nat → Scientific
  | 0 => ⟨0, p⟩
  | fuel + 1 =>
    match d.onGrid? p with
    | some k => ⟨k, p⟩
    | none => d.search (p - 1) fuel

/-- The shortest decimal of a positive magnitude. The first grid is coarser than the magnitude, and
seventeen digits always suffice. -/
def Dyadic.shortest (d : Dyadic) : Scientific :=
  d.search (((d.significand.log2 + d.exponent) * 30103).fdiv 100000 + 2) 20

/-- Where positional notation is used, by the exponent of the first digit. -/
structure Layout where
  least : Int
  greatest : Int

/-- The digits of a whole number, most significant first. -/
def digits (n : Nat) : List Char := Nat.toDigits 10 n

/-- A sign and the digits of a whole number, the sign written in any case. -/
def signedDigits (n : Int) : List Char :=
  (if n < 0 then '-' else '+') :: digits n.natAbs

/-- The text of a positive decimal. Positional text has at least one digit on either side of the
point; the other form has one digit before the point, no point after a lone digit, and an
exponent with its sign. -/
def Scientific.text (layout : Layout) (s : Scientific) : List Char :=
  let ds := digits s.coefficient
  let first := s.exponent + (ds.length - 1 : Nat)
  if layout.least ≤ first ∧ first ≤ layout.greatest then
    if 0 ≤ s.exponent then ds ++ List.replicate s.exponent.toNat '0' ++ ['.', '0']
    else if 0 ≤ first then
      ds.take (first.toNat + 1) ++ '.' :: ds.drop (first.toNat + 1)
    else '0' :: '.' :: List.replicate ((-first).toNat - 1) '0' ++ ds
  else
    let fraction := ds.drop 1
    ds.take 1 ++ (if fraction.isEmpty then [] else '.' :: fraction) ++ 'e' :: signedDigits first

/-- The text of a finite double: its sign, then its shortest decimal. -/
def textOfBits (layout : Layout) (bits : UInt64) : List Char :=
  let d := Dyadic.ofBits bits
  (if isNegative bits then ['-'] else []) ++
    if d.significand = 0 then ['0', '.', '0'] else d.shortest.text layout

end BuildVocabulary.Decimal

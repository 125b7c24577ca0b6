import StyleSense.Number.Binary

/-!
Contract: decimal texts of floating point numbers.

Owns:
- `Decimal`, a whole number times a power of ten;
- `shortest`, the fewest decimal digits that read back as the same number, and of those the
  nearest;
- `nearest`, the double precision number nearest to a decimal;
- `plain`, the shortest digits without an exponent, `scientific`, the same digits with an exponent
  for very large and very small numbers, and `fixed2`, two places.

Does not own: which of these texts a format uses.
-/

namespace StyleSense.Number

/-- The number `significand * 10 ^ exponent`. -/
structure Decimal where
  significand : Nat
  exponent : Int
deriving DecidableEq, Repr

namespace Decimal

/-- A non-negative fraction that need not be in lowest terms. -/
structure Fraction where
  numerator : Nat
  denominator : Nat
deriving DecidableEq, Repr

/-- The fraction `n * base ^ exponent`. -/
def Fraction.ofPower (n base : Nat) (exponent : Int) : Fraction :=
  if 0 ≤ exponent then ⟨n * Nat.pow base exponent.toNat, 1⟩ else ⟨n, Nat.pow base (-exponent).toNat⟩

/-- Order of fractions. -/
def Fraction.lt (left right : Fraction) : Bool :=
  left.numerator * right.denominator < right.numerator * left.denominator

/-- The real numbers that read back as `significand * 2 ^ exponent`: everything between the two
halfway points to its neighbours, the ends included when the significand is even. -/
structure Interval where
  lower : Fraction
  upper : Fraction
  closed : Bool
deriving DecidableEq, Repr

/-- The interval around a positive double precision number in normal form. -/
def Interval.around (significand : Nat) (exponent : Int) : Interval :=
  let lower :=
    if significand = Nat.pow 2 52 ∧ -1074 < exponent then
      Fraction.ofPower (4 * significand - 1) 2 (exponent - 2)
    else Fraction.ofPower (2 * significand - 1) 2 (exponent - 1)
  { lower
    upper := Fraction.ofPower (2 * significand + 1) 2 (exponent - 1)
    closed := significand % 2 == 0 }

/-- Membership of a fraction. -/
def Interval.holds (interval : Interval) (x : Fraction) : Bool :=
  if interval.closed then !x.lt interval.lower && !interval.upper.lt x
  else interval.lower.lt x && x.lt interval.upper

/-- The power of ten just above a positive fraction, looked for near the estimate that its binary
length gives. -/
def magnitude (x : Fraction) : Int :=
  let estimate := ((bitLength x.numerator : Int) - bitLength x.denominator) * 30103 / 100000 - 1
  let above := [estimate, estimate + 1, estimate + 2].find? fun power =>
    x.lt (Fraction.ofPower 1 10 power)
  above.getD (estimate + 3)

/-- Of the two neighbours of `x` on the grid of multiples of `10 ^ power`, the nearer one that lies
in the interval; the larger one on a tie. -/
def onGrid? (interval : Interval) (x : Fraction) (power : Int) : Option Decimal :=
  let unit := Fraction.ofPower 1 10 power
  let dividend := x.numerator * unit.denominator
  let divisor := x.denominator * unit.numerator
  let below := dividend / divisor
  let rest := dividend % divisor
  let holds (n : Nat) : Bool := interval.holds (Fraction.ofPower n 10 power)
  if rest * 2 < divisor then
    if holds below then some ⟨below, power⟩
    else if holds (below + 1) then some ⟨below + 1, power⟩ else none
  else if holds (below + 1) then some ⟨below + 1, power⟩
  else if holds below then some ⟨below, power⟩ else none

/-- Move the zeros at the end of the significand into the exponent; `fuel` bounds their number. -/
def dropZeros : (fuel : Nat) → Decimal → Decimal
  | 0, d => d
  | fuel + 1, d =>
    if d.significand ≠ 0 ∧ d.significand % 10 = 0 then
      dropZeros fuel ⟨d.significand / 10, d.exponent + 1⟩
    else d

/-- The decimal with no zero at the end of its significand. -/
def normalize (d : Decimal) : Decimal :=
  dropZeros d.significand d

/-- The shortest decimal that reads back as the positive number `significand * 2 ^ exponent`. -/
def shortest (significand : Nat) (exponent : Int) : Decimal :=
  let x := Fraction.ofPower significand 2 exponent
  let interval := Interval.around significand exponent
  let top := magnitude x
  let hit := (List.range 17).findSome? fun (digits : Nat) => onGrid? interval x (top - digits - 1)
  normalize (hit.getD ⟨0, 0⟩)

/-- The double precision number nearest to a decimal, ties to even. -/
def nearest (negative : Bool) (d : Decimal) : Float :=
  if d.significand = 0 then Binary.toFloat ⟨negative, 0, 0⟩
  else
    let x := Fraction.ofPower d.significand 10 d.exponent
    -- Enough binary places that what is cut off only matters as "not exact".
    let shift := bitLength x.denominator + 1200
    let scaled := x.numerator <<< shift
    let quotient := scaled / x.denominator
    let sticky := if scaled % x.denominator = 0 then 0 else 1
    Binary.toFloat ⟨negative, 2 * quotient + sticky, -(shift : Int) - 1⟩

/-- Decimal digits of a whole number. -/
def digits (n : Nat) : List Char :=
  Nat.toDigits 10 n

/-- Digits without an exponent: zeros fill the places that the significand does not reach. -/
def plainText (d : Decimal) : List Char :=
  let ds := digits d.significand
  if 0 ≤ d.exponent then ds ++ List.replicate d.exponent.toNat '0'
  else
    let places := (-d.exponent).toNat
    if places < ds.length then
      ds.take (ds.length - places) ++ '.' :: ds.drop (ds.length - places)
    else '0' :: '.' :: (List.replicate (places - ds.length) '0' ++ ds)

/-- Digits with an exponent: one digit before the point. -/
def exponentText (d : Decimal) : List Char :=
  let ds := digits d.significand
  let power := d.exponent + ds.length - 1
  let mantissa := match ds with
    | [] => []
    | [lead] => [lead]
    | lead :: rest => lead :: '.' :: rest
  mantissa ++ 'e' :: (toString power).toList

end Decimal

/-- Text of a number: `finite` writes the magnitude of a finite number other than zero. -/
def numberText (zero : String) (finite : Decimal → List Char) (x : Float) : String :=
  match Binary.ofFloat? x with
  | none => if x.isNaN then "NaN" else if x < 0.0 then "-inf" else "inf"
  | some b =>
    let sign := if b.negative then "-" else ""
    if b.significand = 0 then sign ++ zero
    else sign ++ String.ofList (finite (Decimal.shortest b.significand b.exponent))

/-- The shortest digits that read back, never with an exponent. -/
def plain (x : Float) : String :=
  numberText "0" Decimal.plainText x

/-- The shortest digits that read back, with `.0` after a whole number, and with an exponent from
`10 ^ 16` on and below `10 ^ -5`. -/
def scientific (x : Float) : String :=
  numberText "0.0" text x
where
  text (d : Decimal) : List Char :=
    let point := d.exponent + (Decimal.digits d.significand).length
    if 0 ≤ d.exponent ∧ point ≤ 16 then Decimal.plainText d ++ ['.', '0']
    else if -5 < point ∧ point ≤ 16 then Decimal.plainText d
    else Decimal.exponentText d

/-- Two places after the point, rounded from the exact value with ties to even. -/
def fixed2 (x : Float) : String :=
  match Binary.ofFloat? x with
  | none => if x.isNaN then "NaN" else if x < 0.0 then "-inf" else "inf"
  | some b =>
    let hundredths :=
      if 0 ≤ b.exponent then b.significand * Nat.pow 2 b.exponent.toNat * 100
      else halfEven (b.significand * 100) (Nat.pow 2 (-b.exponent).toNat)
    let sign := if b.negative then "-" else ""
    let places := Decimal.digits (hundredths % 100)
    let padded := List.replicate (2 - places.length) '0' ++ places
    sign ++ String.ofList (Decimal.digits (hundredths / 100) ++ '.' :: padded)

end StyleSense.Number

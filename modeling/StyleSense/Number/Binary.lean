/-!
Contract: exact binary parts of floating point numbers.

Owns:
- `Binary`, a signed significand times a power of two, with the parts of a `Float` and back;
- `halfEven`, a quotient rounded to the nearest whole number, ties to the even one;
- rounding to a whole number with ties away from zero, the remainder whose sign is that of the
  dividend, and the nearest single precision number.

Does not own: decimal digits (`StyleSense.Number.Decimal`).
-/

namespace StyleSense.Number

/-- The number `significand * 2 ^ exponent`, negated when `negative`. -/
structure Binary where
  negative : Bool
  significand : Nat
  exponent : Int
deriving DecidableEq, Repr

/-- A quotient rounded to the nearest whole number; a tie goes to the even neighbour. -/
def halfEven (dividend divisor : Nat) : Nat :=
  let quotient := dividend / divisor
  let rest := dividend % divisor
  if 2 * rest < divisor then quotient
  else if divisor < 2 * rest then quotient + 1
  else quotient + quotient % 2

/-- Number of binary digits. -/
def bitLength (n : Nat) : Nat :=
  if n = 0 then 0 else n.log2 + 1

/-- A binary floating point format: digits of the significand, least exponent of its last digit,
and the power of two that is too large. -/
structure Format where
  precision : Nat
  least : Int
  limit : Int
deriving DecidableEq, Repr

/-- Double precision. -/
def Format.double : Format := ⟨53, -1074, 1024⟩

/-- Single precision. -/
def Format.single : Format := ⟨24, -149, 128⟩

namespace Binary

/-- The nearest number whose significand fits the format, ties to the even significand; limits on
large magnitudes are not looked at. -/
def round (format : Format) (b : Binary) : Binary :=
  let last := max format.least (b.exponent + bitLength b.significand - format.precision)
  if last ≤ b.exponent then
    { b with significand := b.significand <<< (b.exponent - last).toNat, exponent := last }
  else
    { b with
      significand := halfEven b.significand (Nat.pow 2 (last - b.exponent).toNat)
      exponent := last }

/-- Bits of the sign in double precision. -/
def signBits (negative : Bool) : Nat :=
  if negative then Nat.pow 2 63 else 0

/-- Bits of the exponent of an infinity in double precision. -/
def infinityBits : Nat := 2047 * Nat.pow 2 52

/-- The parts of a finite number. -/
def ofFloat? (x : Float) : Option Binary :=
  let bits := x.toBits.toNat
  let negative := decide (Nat.pow 2 63 ≤ bits)
  let field : Nat := bits / Nat.pow 2 52 % 2048
  let fraction : Nat := bits % Nat.pow 2 52
  if field = 2047 then none
  else if field = 0 then some ⟨negative, fraction, -1074⟩
  else some ⟨negative, Nat.pow 2 52 + fraction, (field : Int) - 1075⟩

/-- The nearest double precision number, an infinity when the magnitude is too large. -/
def toFloat (b : Binary) : Float :=
  if b.significand = 0 then
    Float.ofBits (UInt64.ofNat (signBits b.negative))
  else
    let fitted := b.round .double
    let bits := (fitted.exponent + 1074).toNat * Nat.pow 2 52 + fitted.significand
    Float.ofBits (UInt64.ofNat (signBits b.negative + min bits infinityBits))

end Binary

/-- The nearest whole number; a tie goes away from zero. The sign of zero is kept. -/
def roundAway (x : Float) : Float :=
  match Binary.ofFloat? x with
  | none => x
  | some b =>
    if 0 ≤ b.exponent then x
    else
      let unit := Nat.pow 2 (-b.exponent).toNat
      Binary.toFloat ⟨b.negative, (2 * b.significand + unit) / (2 * unit), 0⟩

/-- The nearest whole number, ties away from zero, kept within `0` and `most`; `0` when `x` is not
a number. -/
def roundWithin (most : Nat) (x : Float) : Nat :=
  match Binary.ofFloat? x with
  | none => if 0.0 < x then most else 0
  | some b =>
    if b.negative then 0
    else
      let unit := Nat.pow 2 (-b.exponent).toNat
      min most ((2 * (b.significand <<< b.exponent.toNat) + unit) / (2 * unit))

/-- What remains of `x` after taking away the greatest whole multiple of `y` towards zero; the sign
is that of `x`. -/
def remainder (x y : Float) : Float :=
  match Binary.ofFloat? x, Binary.ofFloat? y with
  | some dividend, some divisor =>
    if divisor.significand = 0 then 0.0 / 0.0
    else
      let common := min dividend.exponent divisor.exponent
      let scaled := dividend.significand <<< (dividend.exponent - common).toNat
      let modulus := divisor.significand <<< (divisor.exponent - common).toNat
      Binary.toFloat ⟨dividend.negative, scaled % modulus, common⟩
  | some _, none => if y.isNaN then y else x
  | none, _ => 0.0 / 0.0

/-- The nearest single precision number. -/
def toSingle (x : Float) : Float :=
  match Binary.ofFloat? x with
  | none => x
  | some b =>
    let fitted := b.round .single
    if Format.single.limit < fitted.exponent + bitLength fitted.significand then
      if b.negative then -1.0 / 0.0 else 1.0 / 0.0
    else fitted.toFloat

end StyleSense.Number

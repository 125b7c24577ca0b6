import StyleSense.Number.Binary

/-!
Contract: the arithmetic that color conversions use.

Owns:
- `Arithmetic`, the operations on channel values;
- its two instances: floating point numbers, on which the program computes, and exact rationals, on
  which its formulas can be studied without rounding.

Does not own: the conversions (`StyleSense.Color.Conversion`).
-/

namespace StyleSense

/-- Operations on channel values. -/
class Arithmetic (α : Type) extends Add α, Sub α, Mul α, Div α, OfScientific α where
  /-- Order of values. -/
  lessEqual : α → α → Bool
  /-- Strict order of values. -/
  less : α → α → Bool
  /-- Equality of values. -/
  equal : α → α → Bool
  /-- The greater of two values. -/
  greater : α → α → α
  /-- The smaller of two values. -/
  smaller : α → α → α
  /-- What remains after taking away whole multiples towards zero; the sign is that of the first
  operand. -/
  remainder : α → α → α
  /-- The nearest whole number, ties away from zero. -/
  roundAway : α → α

namespace Arithmetic

/-- A whole number. -/
def ofNat {α : Type} [Arithmetic α] (n : Nat) : α :=
  OfScientific.ofScientific n false 0

/-- The remainder of a value modulo a positive `modulus`, which is never negative. -/
def modulo {α : Type} [Arithmetic α] (x modulus : α) : α :=
  let rest := remainder x modulus
  if less rest 0.0 then rest + modulus else rest

end Arithmetic

/-- A value that is not a number gives way to the other operand. -/
instance : Arithmetic Float where
  lessEqual x y := x ≤ y
  less x y := x < y
  equal x y := x == y
  greater x y := if x.isNaN || x < y then y else x
  smaller x y := if x.isNaN || y < x then y else x
  remainder := Number.remainder
  roundAway := Number.roundAway

instance : Arithmetic Rat where
  lessEqual x y := x ≤ y
  less x y := x < y
  equal x y := x == y
  greater x y := if x < y then y else x
  smaller x y := if y < x then y else x
  remainder x y :=
    let quotient := x / y
    let whole := if quotient < 0 then quotient.ceil else quotient.floor
    x - y * whole
  roundAway x := if x < 0 then (x - 1 / 2).ceil else (x + 1 / 2).floor

end StyleSense

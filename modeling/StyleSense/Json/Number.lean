import StyleSense.Json.Basic
import StyleSense.Number.Decimal

/-!
Contract: the value of a JSON number text.

A whole number below `2 ^ 64` keeps its exact value. Any other number is the floating point value
of its leading digits, as many as fit in 64 bits, scaled by one power of ten; it is therefore not
always the nearest one. A magnitude that is too large is refused.

Owns:
- `Json.Number.ofText?`.

Does not own: where a number text ends (`StyleSense.Json.Reader`).
-/

namespace StyleSense.Json.Number

open StyleSense.Number (Binary Decimal)

/-- Greatest significand that is kept. -/
def maxSignificand : Nat := Nat.pow 2 64 - 1

/-- Greatest exponent that can be written. -/
def maxExponent : Nat := Nat.pow 2 31 - 1

/-- The value of a decimal digit. -/
def digitValue (c : Char) : Nat :=
  c.toNat - '0'.toNat

/-- Append digits to a significand while it fits; the count is that of the digits appended. -/
def appendDigits : (significand : Nat) → List Char → Nat × Nat
  | significand, [] => (significand, 0)
  | significand, c :: cs =>
    let longer := significand * 10 + digitValue c
    if longer ≤ maxSignificand then
      let (result, count) := appendDigits longer cs
      (result, count + 1)
    else (significand, 0)

/-- The floating point number nearest to `10 ^ power`. -/
def tenPower (power : Nat) : Float :=
  Decimal.nearest false ⟨1, power⟩

/-- Scale by a power of ten, in steps of at most `10 ^ 308`. -/
def scale? (x : Float) (exponent : Int) : Option Float :=
  if exponent.natAbs ≤ 308 then
    if 0 ≤ exponent then
      let scaled := x * tenPower exponent.natAbs
      if scaled.isFinite then some scaled else none
    else some (x / tenPower exponent.natAbs)
  else if x == 0.0 then some x
  else if 0 ≤ exponent then none
  else scale? (x / tenPower 308) (exponent + 308)
termination_by exponent.natAbs
decreasing_by omega

/-- The parts of a number text. -/
structure Parts where
  negative : Bool
  whole : List Char
  fraction : Option (List Char)
  exponent : Option (Bool × List Char)
deriving DecidableEq, Repr

/-- The exponent part, after its mark. -/
def exponentParts? (cs : List Char) : Option (Bool × List Char) :=
  let (positive, ds) := match cs with
    | '+' :: ds => (true, ds)
    | '-' :: ds => (false, ds)
    | ds => (true, ds)
  if !ds.isEmpty && ds.all Char.isDigit then some (positive, ds) else none

/-- Split a number text into its parts. -/
def Parts.ofText? (cs : List Char) : Option Parts :=
  let (negative, rest) := match cs with
    | '-' :: rest => (true, rest)
    | rest => (false, rest)
  let whole := rest.takeWhile Char.isDigit
  let rest := rest.dropWhile Char.isDigit
  if whole.isEmpty || (whole.length > 1 && whole.head? == some '0') then none
  else
    let (fraction, rest) := match rest with
      | '.' :: rest => (some (rest.takeWhile Char.isDigit), rest.dropWhile Char.isDigit)
      | rest => (none, rest)
    if fraction == some [] then none
    else match rest with
      | [] => some ⟨negative, whole, fraction, none⟩
      | mark :: rest =>
        if mark == 'e' || mark == 'E' then
          (exponentParts? rest).map fun exponent => ⟨negative, whole, fraction, some exponent⟩
        else none

/-- The value of a number given by its parts. -/
def Parts.value? (parts : Parts) : Option Number :=
  let (significand, kept) := appendDigits 0 parts.whole
  let dropped := parts.whole.length - kept
  if parts.fraction.isNone && parts.exponent.isNone && dropped == 0 then
    if !parts.negative then some (.nat significand)
    else if 0 < significand ∧ significand ≤ Nat.pow 2 63 then some (.negative significand)
    else some (.real (Binary.toFloat ⟨true, significand, 0⟩))
  else
    let (significand, places) := appendDigits significand (parts.fraction.getD [])
    let start : Int := (dropped : Int) - places
    let signed (x : Float) : Number := .real (if parts.negative then -x else x)
    let base := Binary.toFloat ⟨false, significand, 0⟩
    match parts.exponent with
    | none => (scale? base start).map signed
    | some (positive, ds) =>
      let written := ds.foldl (fun n c => n * 10 + digitValue c) 0
      if maxExponent < written then
        if positive && significand != 0 then none else some (signed 0.0)
      else
        let exponent := if positive then start + written else start - written
        (scale? base exponent).map signed

/-- The value of a number text. -/
def ofText? (cs : List Char) : Option Number :=
  (Parts.ofText? cs).bind Parts.value?

end StyleSense.Json.Number

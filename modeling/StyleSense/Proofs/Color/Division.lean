import Mathlib.Tactic.NormNum
import StyleSense.Color.Conversion

/-!
Contract: the divisions that a color call makes.

In exact arithmetic a quotient by zero has a value like any other, so that a division by zero leaves no
trace. Here it leaves one: such a quotient is nothing, whatever is computed from nothing is nothing, and a
comparison with nothing comes out one way or the other, as a guess says that is given beforehand.

Owns:
- `Checked`, a value or nothing, with its arithmetic;
- `Rgba.ofCall_map`: under any guess a call comes to the same as in exact arithmetic, so that no division
  by zero is ever made.

Does not own: the bounds of the channels (`StyleSense.Proofs.Color.Bounds`).
-/

namespace StyleSense

open Arithmetic

/-- A value, or nothing. -/
structure Checked (guess : Option Rat → Option Rat → Bool) where
  value? : Option Rat

namespace Checked

variable {guess : Option Rat → Option Rat → Bool}

/-- A value. -/
def of (x : Rat) : Checked guess :=
  ⟨some x⟩

/-- An operation on values. -/
def lift (operation : Rat → Rat → Rat) (x y : Checked guess) : Checked guess :=
  ⟨do return operation (← x.value?) (← y.value?)⟩

/-- An operation that has no result when its second operand is zero. -/
def divide (operation : Rat → Rat → Rat) (x y : Checked guess) : Checked guess :=
  if y.value? = some 0 then ⟨none⟩ else lift operation x y

/-- A comparison of values. -/
def compare (relation : Rat → Rat → Bool) (x y : Checked guess) : Bool :=
  match x.value?, y.value? with
  | some a, some b => relation a b
  | a, b => guess a b

instance : Arithmetic (Checked guess) where
  add := lift (· + ·)
  sub := lift (· - ·)
  mul := lift (· * ·)
  div := divide (· / ·)
  ofScientific digits negative places := of (OfScientific.ofScientific digits negative places)
  lessEqual := compare lessEqual
  less := compare less
  equal := compare equal
  greater := lift greater
  smaller := lift smaller
  remainder := divide remainder
  roundAway x := ⟨x.value?.map roundAway⟩

/-! ## Operations on values -/

@[simp] theorem of_add (x y : Rat) : (of x + of y : Checked guess) = of (x + y) := rfl

@[simp] theorem of_sub (x y : Rat) : (of x - of y : Checked guess) = of (x - y) := rfl

@[simp] theorem of_mul (x y : Rat) : (of x * of y : Checked guess) = of (x * y) := rfl

@[simp] theorem of_ofScientific (digits : Nat) (negative : Bool) (places : Nat) :
    (OfScientific.ofScientific digits negative places : Checked guess) =
      of (OfScientific.ofScientific digits negative places) := rfl

@[simp] theorem lessEqual_of (x y : Rat) :
    lessEqual (of x : Checked guess) (of y) = lessEqual x y := (rfl)

@[simp] theorem less_of (x y : Rat) : less (of x : Checked guess) (of y) = less x y := (rfl)

@[simp] theorem equal_of (x y : Rat) : equal (of x : Checked guess) (of y) = equal x y := (rfl)

theorem divide_of
    {y : Rat}
    (notZero : y ≠ 0)
    (operation : Rat → Rat → Rat)
    (x : Rat) :
    divide operation (of x : Checked guess) (of y) = of (operation x y) :=
  if_neg fun isZero => notZero (Option.some.inj isZero)

theorem of_div
    {y : Rat}
    (notZero : y ≠ 0)
    (x : Rat) :
    (of x / of y : Checked guess) = of (x / y) :=
  divide_of notZero _ x

theorem remainder_of
    {y : Rat}
    (notZero : y ≠ 0)
    (x : Rat) :
    remainder (of x : Checked guess) (of y) = of (remainder x y) :=
  divide_of notZero _ x

theorem modulo_of
    {modulus : Rat}
    (notZero : modulus ≠ 0)
    (x : Rat) :
    modulo (of x : Checked guess) (of modulus) = of (modulo x modulus) := by
  simp only [modulo, remainder_of notZero, of_ofScientific, less_of, of_add]
  split <;> rfl

end Checked

/-! ## Channels and colors of values -/

section Map

variable {α β : Type}

/-- The channel with another value. -/
def Channel.map (f : α → β) (channel : Channel α) : Channel β :=
  ⟨f channel.value, channel.suffix⟩

/-- The color with other values. -/
def Rgba.map (f : α → β) (color : Rgba α) : Rgba β :=
  ⟨f color.red, f color.green, f color.blue, f color.alpha⟩

/-- The reason with another value. -/
def ColorError.map (f : α → β) : ColorError α → ColorError β
  | .empty => .empty
  | .missingHash => .missingHash
  | .invalidLength digits => .invalidLength digits
  | .invalidHex c => .invalidHex c
  | .unknownName name => .unknownName name
  | .notConstructor name => .notConstructor name
  | .channelCount count => .channelCount count
  | .unsupportedUnit suffix => .unsupportedUnit suffix
  | .outOfRange value => .outOfRange (f value)

end Map

variable {guess : Option Rat → Option Rat → Bool}

open Checked

/-! ## Conversions -/

theorem hueChannel_of (low high hue : Rat) :
    hueChannel (of low : Checked guess) (of high) (of hue) = of (hueChannel low high hue) := by
  have six : (6.0 : Rat) ≠ 0 := by norm_num
  simp only [hueChannel, of_ofScientific, modulo_of six, less_of, of_sub, of_mul, of_add]
  split_ifs <;> rfl

theorem Rgba.ofUnit_of (red green blue alpha : Rat) :
    ofUnit (of red : Checked guess) (of green) (of blue) (of alpha) =
      (ofUnit red green blue alpha).map of :=
  rfl

theorem Rgba.toUnit_map (color : Rgba Rat) :
    (color.map (of : Rat → Checked guess)).toUnit = color.toUnit.map of := by
  have most : (255.0 : Rat) ≠ 0 := by norm_num
  simp only [toUnit, map, of_ofScientific, of_div most]

theorem Hsla.toRgba_of (hue saturation lightness alpha : Rat) :
    (⟨of hue, of saturation, of lightness, of alpha⟩ : Hsla (Checked guess)).toRgba =
      (⟨hue, saturation, lightness, alpha⟩ : Hsla Rat).toRgba.map of := by
  have sixty : (60.0 : Rat) ≠ 0 := by norm_num
  simp only [toRgba, of_ofScientific, equal_of, lessEqual_of, of_div sixty, of_add, of_sub, of_mul]
  split_ifs <;> simp only [of_sub, hueChannel_of, Rgba.ofUnit_of]

/-- White and black are mixed only when together they are at least 1. -/
theorem Hwba.toRgba_of (hue white black alpha : Rat) :
    (⟨of hue, of white, of black, of alpha⟩ : Hwba (Checked guess)).toRgba =
      (⟨hue, white, black, alpha⟩ : Hwba Rat).toRgba.map of := by
  simp only [toRgba, of_ofScientific, lessEqual_of, of_add, of_sub, Hsla.toRgba_of, Rgba.toUnit_map]
  split_ifs with full
  · have isFull : (1.0 : Rat) ≤ white + black := of_decide_eq_true full
    have notZero : white + black ≠ 0 := by
      intro isZero
      norm_num [isZero] at isFull
    simp only [of_div notZero, Rgba.ofUnit_of]
  · rfl

/-! ## Calls -/

/-- The same outcome, with checked values. -/
def checkedOutcome
    {γ δ : Type}
    (f : γ → δ)
    (outcome : Except (ColorError Rat) γ) :
    Except (ColorError (Checked guess)) δ :=
  (outcome.map f).mapError (ColorError.map of)

/-- Steps of a computation are checked one by one. -/
theorem checkedOutcome_bind
    {outcome : Except (ColorError Rat) Rat}
    {next : Rat → Except (ColorError Rat) (Rgba Rat)}
    {checkedNext : Checked guess → Except (ColorError (Checked guess)) (Rgba (Checked guess))}
    (each : ∀ x, checkedNext (of x) = checkedOutcome (Rgba.map of) (next x)) :
    (checkedOutcome of outcome >>= checkedNext) = checkedOutcome (Rgba.map of) (outcome >>= next) := by
  cases outcome with
  | ok x => exact each x
  | error reason => rfl

theorem Channel.fraction_map
    {whole : Rat}
    (notZero : whole ≠ 0)
    (channel : Channel Rat) :
    (channel.map (of : Rat → Checked guess)).fraction (of whole) =
      checkedOutcome of (channel.fraction whole) := by
  have hundred : (100.0 : Rat) ≠ 0 := by norm_num
  obtain ⟨value, suffix⟩ := channel
  cases suffix with
  | none =>
    simp only [fraction, map, of_div notZero, of_ofScientific, lessEqual_of]
    split_ifs <;> rfl
  | some suffix =>
    simp only [fraction, map, of_div notZero, of_div hundred, of_ofScientific, lessEqual_of]
    split_ifs <;> rfl

theorem Channel.degrees_map (channel : Channel Rat) :
    (channel.map (of : Rat → Checked guess)).degrees = checkedOutcome of channel.degrees := by
  have turn : (360.0 : Rat) ≠ 0 := by norm_num
  obtain ⟨value, suffix⟩ := channel
  cases suffix with
  | none =>
    simp only [degrees, map, of_ofScientific, remainder_of turn]
    rfl
  | some suffix =>
    simp only [degrees, map, of_ofScientific, of_mul, remainder_of turn]
    split_ifs <;> rfl

theorem Rgba.ofChannels_map
    (name : String)
    (first second third : Channel Rat)
    (alpha : Rat) :
    ofChannels name (first.map (of : Rat → Checked guess)) (second.map of) (third.map of) (of alpha) =
      checkedOutcome (map of) (ofChannels name first second third alpha) := by
  have most : (255.0 : Rat) ≠ 0 := by norm_num
  have hundred : (100.0 : Rat) ≠ 0 := by norm_num
  unfold ofChannels
  simp only [of_ofScientific, Channel.fraction_map most, Channel.fraction_map hundred,
    Channel.degrees_map]
  split_ifs
  · exact checkedOutcome_bind fun red => checkedOutcome_bind fun green =>
      checkedOutcome_bind fun blue => rfl
  · refine checkedOutcome_bind fun hue => checkedOutcome_bind fun saturation =>
      checkedOutcome_bind fun lightness => ?_
    rw [Hsla.toRgba_of]
    rfl
  · refine checkedOutcome_bind fun hue => checkedOutcome_bind fun white =>
      checkedOutcome_bind fun black => ?_
    rw [Hwba.toRgba_of]
    rfl
  · rfl

/-- A call on checked values comes to what it comes to on values: none of its divisions is by zero. -/
theorem Rgba.ofCall_map
    (name : String)
    (channels : List (Channel Rat)) :
    ofCall name (channels.map (Channel.map (of : Rat → Checked guess))) =
      checkedOutcome (map of) (ofCall name channels) := by
  have one : (1.0 : Rat) ≠ 0 := by norm_num
  match channels with
  | [first, second, third] => exact ofChannels_map name first second third 1.0
  | [first, second, third, fourth] =>
    simp only [List.map_cons, List.map_nil, ofCall, of_ofScientific, Channel.fraction_map one]
    exact checkedOutcome_bind fun alpha => ofChannels_map name first second third alpha
  | [] | [_] | [_, _] => rfl
  | _ :: _ :: _ :: _ :: _ :: rest =>
    simp only [List.map_cons, ofCall, List.length_cons, List.length_map]
    rfl

end StyleSense

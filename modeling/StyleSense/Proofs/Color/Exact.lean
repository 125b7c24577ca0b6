import Mathlib.Algebra.Order.Ring.Cast
import Mathlib.Data.Rat.Floor
import Mathlib.Tactic.Linarith
import Mathlib.Tactic.NormNum
import Mathlib.Tactic.Ring
import StyleSense.Color.Conversion

/-!
Contract: the arithmetic of colors over exact rationals.

A hue is an angle, and the channels that it gives depend only on its place on the circle. Along the six
sectors of the circle a channel rises, is high for two of them, falls, and is low for the other two.

Owns:
- `Arithmetic.modulo_eq_of_turns`: the remainder modulo a whole turn is the one place of an angle within
  the first turn;
- `hueLevel`, the height of a channel between its two levels, and its four stretches;
- `Hsla.toRgba_eq` and `Hwba.toRgba_of_lt`, the channels of a color by their heights;
- `Rgba.HasChannels`, the range of the channels.

Does not own: conversions between the forms of a color (`StyleSense.Proofs.Color.Inverse`,
`StyleSense.Proofs.Color.Bounds`).
-/

namespace StyleSense

namespace Arithmetic

/-- Whole numbers less than one apart are the same. -/
theorem eq_of_near
    {m n : Int}
    (below : (n : Rat) - 1 < m)
    (above : (m : Rat) < n + 1) :
    m = n := by
  have lower : n - 1 < m := by exact_mod_cast below
  have upper : m < n + 1 := by exact_mod_cast above
  omega

/-! ## Remainders -/

/-- What remains is less than the modulus in magnitude, and differs by whole multiples of it. -/
theorem remainder_spec
    {modulus : Rat}
    (positive : 0 < modulus)
    (x : Rat) :
    -modulus < remainder x modulus ∧ remainder x modulus < modulus ∧
      ∃ turns : Int, remainder x modulus = x + modulus * turns := by
  have whole : modulus * (x / modulus) = x := mul_div_cancel₀ x positive.ne'
  change -modulus < x - modulus * _ ∧ x - modulus * _ < modulus ∧
    ∃ turns : Int, x - modulus * _ = _
  split
  · have above := mul_le_mul_of_nonneg_left (Rat.le_ceil (x := x / modulus)) positive.le
    have below := mul_lt_mul_of_pos_left (Rat.ceil_lt (x := x / modulus)) positive
    refine ⟨by linarith, by linarith, -(x / modulus).ceil, ?_⟩
    push_cast
    ring
  · have above := mul_lt_mul_of_pos_left (Rat.lt_floor (x := x / modulus)) positive
    have below := mul_le_mul_of_nonneg_left (Rat.floor_le (x / modulus)) positive.le
    refine ⟨by linarith, by linarith, -(x / modulus).floor, ?_⟩
    push_cast
    ring

theorem modulo_eq (x modulus : Rat) :
    modulo x modulus =
      if remainder x modulus < 0 then remainder x modulus + modulus else remainder x modulus := by
  norm_num [modulo, less]

/-- A remainder that is never negative. -/
theorem modulo_spec
    {modulus : Rat}
    (positive : 0 < modulus)
    (x : Rat) :
    0 ≤ modulo x modulus ∧ modulo x modulus < modulus ∧
      ∃ turns : Int, modulo x modulus = x + modulus * turns := by
  obtain ⟨below, above, turns, isTurned⟩ := remainder_spec positive x
  rw [modulo_eq]
  split
  · refine ⟨by linarith, by linarith, turns + 1, ?_⟩
    rw [isTurned]
    push_cast
    ring
  · refine ⟨by linarith, above, turns, isTurned⟩

/-- Two places within the same turn that differ by whole turns are the same. -/
theorem eq_of_turns
    {modulus x y : Rat}
    (turns : Int)
    (inTurnX : 0 ≤ x ∧ x < modulus)
    (inTurnY : 0 ≤ y ∧ y < modulus)
    (differ : x = y + modulus * turns) :
    x = y := by
  have positive : 0 < modulus := by linarith
  have above : (turns : Rat) < 1 :=
    lt_of_mul_lt_mul_left (by linarith : modulus * turns < modulus * 1) positive.le
  have below : (-1 : Rat) < turns :=
    lt_of_mul_lt_mul_left (by linarith : modulus * (-1) < modulus * turns) positive.le
  obtain rfl : turns = 0 := eq_of_near (by push_cast; linarith) (by push_cast; linarith)
  simpa using differ

theorem modulo_eq_of_turns
    {modulus x y : Rat}
    (turns : Int)
    (inTurn : 0 ≤ y ∧ y < modulus)
    (differ : x = y + modulus * turns) :
    modulo x modulus = y := by
  obtain ⟨notBelow, below, more, isTurned⟩ := modulo_spec (by linarith : 0 < modulus) x
  refine eq_of_turns (turns + more) ⟨notBelow, below⟩ inTurn ?_
  rw [isTurned, differ]
  push_cast
  ring

/-! ## Rounding -/

/-- A whole number is not rounded. -/
theorem roundAway_intCast (n : Int) : roundAway (n : Rat) = n := by
  change (if (n : Rat) < 0 then (((n : Rat) - 1 / 2).ceil : Rat) else (((n : Rat) + 1 / 2).floor : Rat)) = n
  split
  · have notBelow := Rat.le_ceil (x := (n : Rat) - 1 / 2)
    have above := Rat.ceil_lt (x := (n : Rat) - 1 / 2)
    exact congrArg _ (eq_of_near (by linarith) (by linarith))
  · have notAbove := Rat.floor_le ((n : Rat) + 1 / 2)
    have below := Rat.lt_floor (x := (n : Rat) + 1 / 2)
    exact congrArg _ (eq_of_near (by linarith) (by linarith))

end Arithmetic

open Arithmetic

/-! ## The circle of hues -/

theorem hueChannel_eq (low high hue : Rat) :
    hueChannel low high hue =
      if modulo hue 6 < 1 then (high - low) * modulo hue 6 + low
      else if modulo hue 6 < 3 then high
      else if modulo hue 6 < 4 then (high - low) * (4 - modulo hue 6) + low
      else low := by
  unfold hueChannel
  norm_num [less]

/-- The height of a channel between its two levels, from 0 to 1; `hue` is in sixths of a turn. -/
def hueLevel (hue : Rat) : Rat :=
  hueChannel 0 1 hue

theorem hueLevel_eq (hue : Rat) :
    hueLevel hue =
      if modulo hue 6 < 1 then modulo hue 6
      else if modulo hue 6 < 3 then 1
      else if modulo hue 6 < 4 then 4 - modulo hue 6
      else 0 := by
  simp only [hueLevel, hueChannel_eq, sub_zero, one_mul, add_zero]

theorem hueChannel_eq_hueLevel (low high hue : Rat) :
    hueChannel low high hue = (high - low) * hueLevel hue + low := by
  rw [hueChannel_eq, hueLevel_eq]
  split_ifs <;> ring

/-- A channel stays between its two levels. -/
theorem hueLevel_mem (hue : Rat) :
    0 ≤ hueLevel hue ∧ hueLevel hue ≤ 1 := by
  have notBelow := (modulo_spec (by norm_num : (0 : Rat) < 6) hue).1
  rw [hueLevel_eq]
  split_ifs <;> constructor <;> linarith

/-- After a whole turn the heights are the same. -/
theorem hueLevel_turn (hue : Rat) : hueLevel (hue + 6) = hueLevel hue := by
  obtain ⟨notBelow, below, turns, isTurned⟩ := modulo_spec (by norm_num : (0 : Rat) < 6) hue
  have same : modulo (hue + 6) 6 = modulo hue 6 := by
    refine modulo_eq_of_turns (1 - turns) ⟨notBelow, below⟩ ?_
    rw [isTurned]
    push_cast
    ring
  rw [hueLevel_eq, hueLevel_eq, same]

section Stretches

variable {hue : Rat}

theorem modulo_of_first_turn (inTurn : 0 ≤ hue ∧ hue < 6) : modulo hue 6 = hue :=
  modulo_eq_of_turns 0 inTurn (by simp)

theorem hueLevel_rising (inSector : 0 ≤ hue ∧ hue ≤ 1) : hueLevel hue = hue := by
  rw [hueLevel_eq, modulo_of_first_turn ⟨inSector.1, by linarith⟩]
  split_ifs <;> linarith

theorem hueLevel_high (inSectors : 1 ≤ hue ∧ hue ≤ 3) : hueLevel hue = 1 := by
  rw [hueLevel_eq, modulo_of_first_turn ⟨by linarith, by linarith⟩]
  split_ifs <;> linarith

theorem hueLevel_falling (inSector : 3 ≤ hue ∧ hue ≤ 4) : hueLevel hue = 4 - hue := by
  rw [hueLevel_eq, modulo_of_first_turn ⟨by linarith, by linarith⟩]
  split_ifs <;> linarith

/-- A channel is low up to the end of the turn, where the next one starts. -/
theorem hueLevel_low (inSectors : 4 ≤ hue ∧ hue ≤ 6) : hueLevel hue = 0 := by
  rcases inSectors.2.lt_or_eq with inTurn | rfl
  · rw [hueLevel_eq, modulo_of_first_turn ⟨by linarith, inTurn⟩]
    split_ifs <;> linarith
  · rw [← zero_add (6 : Rat), hueLevel_turn]
    exact hueLevel_rising ⟨le_refl 0, zero_le_one⟩

end Stretches

/-! ## From hue to channels -/

namespace Rgba

/-- Red, green and blue from 0 to 255. -/
structure HasChannels (color : Rgba Rat) : Prop where
  red : 0 ≤ color.red ∧ color.red ≤ 255
  green : 0 ≤ color.green ∧ color.green ≤ 255
  blue : 0 ≤ color.blue ∧ color.blue ≤ 255

theorem ofUnit_eq (red green blue alpha : Rat) :
    ofUnit red green blue alpha = ⟨red * 255, green * 255, blue * 255, alpha⟩ := by
  norm_num [ofUnit]

theorem toUnit_eq (color : Rgba Rat) :
    color.toUnit = ⟨color.red / 255, color.green / 255, color.blue / 255, color.alpha⟩ := by
  norm_num [toUnit]

theorem toUnit_ofUnit (red green blue alpha : Rat) :
    (ofUnit red green blue alpha).toUnit = ⟨red, green, blue, alpha⟩ := by
  rw [ofUnit_eq, toUnit_eq]
  congr 1 <;> ring

theorem ofUnit_toUnit (color : Rgba Rat) :
    ofUnit color.toUnit.red color.toUnit.green color.toUnit.blue color.toUnit.alpha = color := by
  rw [ofUnit_eq, toUnit_eq]
  congr 1 <;> ring

end Rgba

namespace Hsla

/-- The level of the highest channel. -/
def high (color : Hsla Rat) : Rat :=
  if color.lightness ≤ 1 / 2 then color.lightness * (color.saturation + 1)
  else color.lightness + color.saturation - color.lightness * color.saturation

/-- The level of the lowest channel, as far below the lightness as the highest one is above it. -/
def low (color : Hsla Rat) : Rat :=
  color.lightness * 2 - color.high

/-- The channel that is `shift` sixths of a turn away from the hue. -/
def channel (color : Hsla Rat) (shift : Rat) : Rat :=
  (color.high - color.low) * hueLevel (color.hue / 60 + shift) + color.low

/-- A color without saturation is no exception: its two levels are the same. -/
theorem channel_of_gray
    {color : Hsla Rat}
    (isGray : color.saturation = 0)
    (shift : Rat) :
    color.channel shift = color.lightness := by
  have isHigh : color.high = color.lightness := by
    rw [high, isGray]
    split_ifs <;> ring
  rw [channel, low, isHigh]
  ring

theorem toRgba_eq (color : Hsla Rat) :
    color.toRgba =
      Rgba.ofUnit (color.channel 2) (color.channel 0) (color.channel (-2)) color.alpha := by
  by_cases isGray : color.saturation = 0
  · rw [channel_of_gray isGray, channel_of_gray isGray, channel_of_gray isGray, toRgba,
      if_pos (by norm_num [equal, isGray])]
  · rw [toRgba, if_neg (by norm_num [equal, isGray])]
    norm_num [hueChannel_eq_hueLevel, channel, low, high, lessEqual, sub_eq_add_neg]

/-- The levels of a color without gray in it are the ends of the range. -/
theorem channel_pure (hue shift alpha : Rat) :
    (⟨hue, 1, 1 / 2, alpha⟩ : Hsla Rat).channel shift = hueLevel (hue / 60 + shift) := by
  norm_num [channel, low, high]

end Hsla

namespace Hwba

/-- The channel that is `shift` sixths of a turn away from the hue. -/
def channel (color : Hwba Rat) (shift : Rat) : Rat :=
  hueLevel (color.hue / 60 + shift) * (1 - color.whiteness - color.blackness) + color.whiteness

/-- White and black leave room for the hue. -/
theorem toRgba_of_lt
    {color : Hwba Rat}
    (room : color.whiteness + color.blackness < 1) :
    color.toRgba =
      Rgba.ofUnit (color.channel 2) (color.channel 0) (color.channel (-2)) color.alpha := by
  rw [toRgba, if_neg (by norm_num [lessEqual, room])]
  have one : (1.0 : Rat) = 1 := by norm_num
  have half : (0.5 : Rat) = 1 / 2 := by norm_num
  simp only [one, half, Hsla.toRgba_eq, Rgba.toUnit_ofUnit, Hsla.channel_pure, channel]

/-- White and black leave no room: their mixture is gray. -/
theorem toRgba_of_le
    {color : Hwba Rat}
    (full : 1 ≤ color.whiteness + color.blackness) :
    color.toRgba =
      let gray := color.whiteness / (color.whiteness + color.blackness)
      Rgba.ofUnit gray gray gray color.alpha := by
  rw [toRgba, if_pos (by norm_num [lessEqual, full])]

end Hwba

end StyleSense

import Mathlib.Tactic.FieldSimp
import StyleSense.Proofs.Color.Exact

/-!
Contract: the forms of a color are turned back into each other.

From the highest channel on, the other two stand a third of a turn to either side of it. How far the hue
leans to one of them is their difference in relation to the chroma, and so the same three heights are
found whichever channel is the highest one.

Owns:
- `Rgba.exactHue`, the hue before it is rounded to whole degrees;
- `Rgba.hsla_hwba_convert_back`: a color whose hue is a whole number of degrees is given back by its hue,
  saturation and lightness, and by its hue, whiteness and blackness.

Does not own: what rounding the hue changes.
-/

namespace StyleSense

open Arithmetic

/-- Exact arithmetic with another way to round. -/
@[reducible]
def Arithmetic.rounding (round : Rat → Rat) : Arithmetic Rat :=
  { (inferInstance : Arithmetic Rat) with roundAway := round }

/-- The hue of a color before it is rounded to whole degrees. -/
def Rgba.exactHue (color : Rgba Rat) : Rat :=
  (@Rgba.toHsla Rat (.rounding id) color).hue

/-! ## Heights around the highest channel -/

section Around

variable {lean : Rat} (near : -1 ≤ lean ∧ lean ≤ 1)

include near

/-- The highest channel. -/
theorem hueLevel_highest : hueLevel (lean + 2) = 1 :=
  hueLevel_high ⟨by linarith, by linarith⟩

/-- The next channel is above the lowest one as far as the hue leans forward. -/
theorem hueLevel_next : hueLevel lean = max lean 0 := by
  rcases le_total 0 lean with forward | backward
  · rw [max_eq_left forward]
    exact hueLevel_rising ⟨forward, near.2⟩
  · rw [max_eq_right backward, ← hueLevel_turn]
    exact hueLevel_low ⟨by linarith, by linarith⟩

/-- The previous channel is above the lowest one as far as the hue leans back. -/
theorem hueLevel_previous : hueLevel (lean - 2) = max (-lean) 0 := by
  rw [← hueLevel_turn]
  rcases le_total 0 lean with forward | backward
  · rw [max_eq_right (by linarith)]
    exact hueLevel_low ⟨by linarith, by linarith⟩
  · rw [max_eq_left (by linarith), hueLevel_falling ⟨by linarith, by linarith⟩]
    ring

end Around

/-- A height above the lower of two channels, in relation to the chroma, is turned back into the
channel. -/
theorem height_add_lower
    {chroma next previous : Rat}
    (colored : 0 < chroma) :
    chroma * max ((next - previous) / chroma) 0 + min next previous = next := by
  rcases le_total previous next with above | below
  · rw [max_eq_left (div_nonneg (by linarith) colored.le), min_eq_right above,
      mul_div_cancel₀ _ colored.ne']
    ring
  · rw [max_eq_right (div_nonpos_of_nonpos_of_nonneg (by linarith) colored.le), min_eq_left below]
    ring

/-- Three channels are read from the circle, whichever of them is the highest: `next` follows it and
`previous` stands before it. -/
theorem channels_around
    {highest next previous lowest lean : Rat}
    (nextBelow : next ≤ highest)
    (previousBelow : previous ≤ highest)
    (isLowest : lowest = min next previous)
    (colored : 0 < highest - lowest)
    (leans : lean = (next - previous) / (highest - lowest)) :
    (highest - lowest) * hueLevel (lean + 2) + lowest = highest ∧
    (highest - lowest) * hueLevel lean + lowest = next ∧
    (highest - lowest) * hueLevel (lean - 2) + lowest = previous := by
  have near : -1 ≤ lean ∧ lean ≤ 1 := by
    have belowNext : lowest ≤ next := isLowest ▸ min_le_left next previous
    have belowPrevious : lowest ≤ previous := isLowest ▸ min_le_right next previous
    rw [leans, le_div_iff₀ colored, div_le_iff₀ colored]
    constructor <;> linarith
  refine ⟨?_, ?_, ?_⟩
  · rw [hueLevel_highest near]
    ring
  · rw [hueLevel_next near, leans, isLowest]
    exact height_add_lower (isLowest ▸ colored)
  · rw [hueLevel_previous near, leans, ← neg_div, neg_sub, isLowest, min_comm]
    rw [isLowest, min_comm] at colored
    exact height_add_lower colored

namespace Rgba

/-! ## Highest and lowest channel -/

theorem greater_eq_max (x y : Rat) : greater x y = max x y := by
  change (if x < y then y else x) = max x y
  split_ifs with less
  · exact (max_eq_right less.le).symm
  · exact (max_eq_left (not_lt.mp less)).symm

theorem smaller_eq_min (x y : Rat) : smaller x y = min x y := by
  change (if y < x then y else x) = min x y
  split_ifs with less
  · exact (min_eq_right less.le).symm
  · exact (min_eq_left (not_lt.mp less)).symm

theorem highest_eq (color : Rgba Rat) :
    color.highest = max (max color.red color.green) color.blue := by
  rw [highest, greater_eq_max, greater_eq_max]

theorem lowest_eq (color : Rgba Rat) :
    color.lowest = min (min color.red color.green) color.blue := by
  rw [lowest, smaller_eq_min, smaller_eq_min]

theorem le_highest (color : Rgba Rat) :
    color.red ≤ color.highest ∧ color.green ≤ color.highest ∧ color.blue ≤ color.highest := by
  rw [highest_eq]
  exact ⟨(le_max_left ..).trans (le_max_left ..), (le_max_right ..).trans (le_max_left ..),
    le_max_right ..⟩

theorem lowest_le (color : Rgba Rat) :
    color.lowest ≤ color.red ∧ color.lowest ≤ color.green ∧ color.lowest ≤ color.blue := by
  rw [lowest_eq]
  exact ⟨(min_le_left ..).trans (min_le_left ..), (min_le_left ..).trans (min_le_right ..),
    min_le_right ..⟩

/-! ## Hue

Of a color whose channels run from 0 to 1. -/

/-- The range from the lowest to the highest channel. -/
def chroma (color : Rgba Rat) : Rat :=
  color.highest - color.lowest

/-- The hue of a color that is not gray, in sixths of a turn. -/
def sixths (color : Rgba Rat) : Rat :=
  if color.highest = color.red then
    (color.green - color.blue) / color.chroma + if color.green < color.blue then 6 else 0
  else if color.highest = color.green then (color.blue - color.red) / color.chroma + 2
  else (color.red - color.green) / color.chroma + 4

/-- The channels of a color stand on the circle where its hue says. -/
theorem channels_of_sixths
    {color : Rgba Rat}
    (colored : 0 < color.chroma) :
    color.chroma * hueLevel (color.sixths + 2) + color.lowest = color.red ∧
    color.chroma * hueLevel color.sixths + color.lowest = color.green ∧
    color.chroma * hueLevel (color.sixths - 2) + color.lowest = color.blue := by
  have isHighest := color.highest_eq
  have isLowest := color.lowest_eq
  obtain ⟨belowRed, belowGreen, belowBlue⟩ := color.le_highest
  unfold sixths
  split_ifs with isRed less isGreen
  · -- the hue leans back from red, and is counted from the end of the turn
    rw [min_eq_right (belowGreen.trans_eq isRed)] at isLowest
    obtain ⟨red, green, blue⟩ := channels_around belowGreen belowBlue isLowest colored rfl
    rw [add_right_comm, hueLevel_turn, hueLevel_turn, add_sub_right_comm, hueLevel_turn]
    exact ⟨red.trans isRed, green, blue⟩
  · rw [min_eq_right (belowGreen.trans_eq isRed)] at isLowest
    obtain ⟨red, green, blue⟩ := channels_around belowGreen belowBlue isLowest colored rfl
    rw [add_zero]
    exact ⟨red.trans isRed, green, blue⟩
  · rw [min_eq_left (belowRed.trans_eq isGreen), min_comm] at isLowest
    obtain ⟨green, blue, red⟩ := channels_around belowBlue belowRed isLowest colored rfl
    have beforeGreen : ∀ lean : Rat, lean + 2 + 2 = lean - 2 + 6 := fun lean => by ring
    rw [beforeGreen, hueLevel_turn, add_sub_cancel_right]
    exact ⟨red, green.trans isGreen, blue⟩
  · have isBlue : color.highest = color.blue := by
      rcases max_choice (max color.red color.green) color.blue with isOther | isBlue
      · rcases max_choice color.red color.green with red | green
        · exact absurd (isHighest.trans (isOther.trans red)) isRed
        · exact absurd (isHighest.trans (isOther.trans green)) isGreen
      · exact isHighest.trans isBlue
    rw [min_eq_left ((min_le_left ..).trans (belowRed.trans_eq isBlue))] at isLowest
    obtain ⟨blue, red, green⟩ := channels_around belowRed belowGreen isLowest colored rfl
    have afterBlue : ∀ lean : Rat, lean + 4 + 2 = lean + 6 := fun lean => by ring
    have beforeBlue : ∀ lean : Rat, lean + 4 = lean - 2 + 6 := fun lean => by ring
    have atBlue : ∀ lean : Rat, lean + 4 - 2 = lean + 2 := fun lean => by ring
    rw [afterBlue, atBlue, beforeBlue, hueLevel_turn, hueLevel_turn]
    exact ⟨red, green, blue.trans isBlue⟩

/-! ## Saturation and lightness

Of a color whose channels run from 0 to 1. -/

/-- Halfway between the lowest and the highest channel. -/
def lightness (color : Rgba Rat) : Rat :=
  (color.lowest + color.highest) / 2

/-- The chroma in relation to the greatest one at this lightness. -/
def saturation (color : Rgba Rat) : Rat :=
  if color.lightness ≤ 1 / 2 then color.chroma / (2 * color.lightness)
  else color.chroma / (2 - 2 * color.lightness)

/-- Hue, saturation and lightness of a color, with any way to round the hue. -/
theorem toHsla_rounding
    (round : Rat → Rat)
    (color : Rgba Rat) :
    @toHsla Rat (.rounding round) color =
      if 0 < color.toUnit.chroma then
        ⟨round (color.toUnit.sixths * 60), min color.toUnit.saturation 1, color.toUnit.lightness,
          color.alpha⟩
      else ⟨0, 0, color.toUnit.lightness, color.alpha⟩ := by
  have zero : (0.0 : Rat) = 0 := by norm_num
  have half : (0.5 : Rat) = 1 / 2 := by norm_num
  have one : (1.0 : Rat) = 1 := by norm_num
  have two : (2.0 : Rat) = 2 := by norm_num
  have four : (4.0 : Rat) = 4 := by norm_num
  have six : (6.0 : Rat) = 6 := by norm_num
  have sixty : (60.0 : Rat) = 60 := by norm_num
  simp only [toHsla, less, equal, lessEqual, decide_eq_true_eq, beq_iff_eq, zero, half, one, two, four,
    six, sixty, ← smaller_eq_min]
  rfl

theorem toHsla_eq (color : Rgba Rat) :
    color.toHsla =
      if 0 < color.toUnit.chroma then
        ⟨roundAway (color.toUnit.sixths * 60), min color.toUnit.saturation 1, color.toUnit.lightness,
          color.alpha⟩
      else ⟨0, 0, color.toUnit.lightness, color.alpha⟩ :=
  toHsla_rounding roundAway color

theorem exactHue_eq (color : Rgba Rat) :
    color.exactHue = if 0 < color.toUnit.chroma then color.toUnit.sixths * 60 else 0 := by
  rw [exactHue, toHsla_rounding]
  split_ifs <;> rfl

theorem toHwba_eq (color : Rgba Rat) :
    color.toHwba =
      ⟨color.toHsla.hue, color.toUnit.lowest, 1 - color.toUnit.highest, color.alpha⟩ := by
  have one : (1.0 : Rat) = 1 := by norm_num
  rw [toHwba, one]
  rfl

section Levels

variable
  {color : Rgba Rat}
  (notBelow : 0 ≤ color.lowest)
  (notAbove : color.highest ≤ 1)
  (colored : 0 < color.chroma)

include notBelow notAbove colored

theorem saturation_le_one : color.saturation ≤ 1 := by
  unfold chroma at colored
  unfold saturation lightness chroma
  split_ifs
  · rw [div_le_one (by linarith)]
    linarith
  · rw [div_le_one (by linarith)]
    linarith

/-- Half of the chroma above the lightness is the highest channel. -/
theorem high_of_lightness (hue alpha : Rat) :
    (⟨hue, min color.saturation 1, color.lightness, alpha⟩ : Hsla Rat).high = color.highest := by
  rw [min_eq_left (saturation_le_one notBelow notAbove colored)]
  have twice : 2 * color.lightness = color.lowest + color.highest := by
    rw [lightness]
    ring
  have half : color.chroma / 2 + color.lightness = color.highest := by
    rw [chroma, lightness]
    ring
  unfold chroma at colored
  rw [← half]
  unfold Hsla.high saturation
  simp only
  split_ifs with dark
  · have notBlack : color.lightness ≠ 0 := by linarith
    field_simp
  · have notWhite : 1 - color.lightness ≠ 0 := by linarith
    have isDouble : 2 - 2 * color.lightness = 2 * (1 - color.lightness) := by ring
    rw [isDouble]
    field_simp
    ring

theorem low_of_lightness (hue alpha : Rat) :
    (⟨hue, min color.saturation 1, color.lightness, alpha⟩ : Hsla Rat).low = color.lowest := by
  rw [Hsla.low, high_of_lightness notBelow notAbove colored, lightness]
  ring

end Levels

/-! ## There and back -/

section Whole

variable {color : Rgba Rat}

theorem HasChannels.lowest_nonneg (inRange : color.HasChannels) : 0 ≤ color.toUnit.lowest := by
  obtain ⟨red, green, blue⟩ := inRange
  rw [lowest_eq, toUnit_eq]
  exact le_min (le_min (by linarith) (by linarith)) (by linarith)

theorem HasChannels.highest_le_one (inRange : color.HasChannels) : color.toUnit.highest ≤ 1 := by
  obtain ⟨red, green, blue⟩ := inRange
  rw [highest_eq, toUnit_eq]
  exact max_le (max_le (by linarith) (by linarith)) (by linarith)

/-- Without chroma all channels are the same. -/
theorem eq_of_gray
    (isGray : ¬0 < color.toUnit.chroma) :
    color.toUnit.highest = color.toUnit.lowest ∧
      ofUnit color.toUnit.lowest color.toUnit.lowest color.toUnit.lowest color.alpha = color := by
  have notAbove : color.toUnit.highest ≤ color.toUnit.lowest := by
    unfold chroma at isGray
    linarith
  obtain ⟨belowRed, belowGreen, belowBlue⟩ := color.toUnit.le_highest
  obtain ⟨aboveRed, aboveGreen, aboveBlue⟩ := color.toUnit.lowest_le
  have red : color.toUnit.lowest = color.toUnit.red := le_antisymm aboveRed (belowRed.trans notAbove)
  have green : color.toUnit.lowest = color.toUnit.green :=
    le_antisymm aboveGreen (belowGreen.trans notAbove)
  have blue : color.toUnit.lowest = color.toUnit.blue :=
    le_antisymm aboveBlue (belowBlue.trans notAbove)
  refine ⟨le_antisymm notAbove (aboveRed.trans belowRed), ?_⟩
  calc ofUnit color.toUnit.lowest color.toUnit.lowest color.toUnit.lowest color.alpha
      = ofUnit color.toUnit.red color.toUnit.green color.toUnit.blue color.toUnit.alpha := by
        rw [← red, ← green, ← blue]
        rfl
    _ = color := ofUnit_toUnit color

/-- A whole number of degrees is not changed by rounding. -/
theorem toHsla_of_whole
    {degrees : Int}
    (whole : color.exactHue = degrees)
    (colored : 0 < color.toUnit.chroma) :
    color.toHsla =
      ⟨color.toUnit.sixths * 60, min color.toUnit.saturation 1, color.toUnit.lightness, color.alpha⟩ := by
  rw [exactHue_eq, if_pos colored] at whole
  rw [toHsla_eq, if_pos colored, whole, roundAway_intCast]

/-- The channels of a color stand on the circle where its hue in degrees says. -/
theorem channels_of_hue
    (colored : 0 < color.toUnit.chroma) :
    let height (shift : Rat) := hueLevel (color.toUnit.sixths * 60 / 60 + shift)
    color.toUnit.chroma * height 2 + color.toUnit.lowest = color.toUnit.red ∧
    color.toUnit.chroma * height 0 + color.toUnit.lowest = color.toUnit.green ∧
    color.toUnit.chroma * height (-2) + color.toUnit.lowest = color.toUnit.blue := by
  simpa only [mul_div_cancel_right₀ _ (by norm_num : (60 : Rat) ≠ 0), add_zero, ← sub_eq_add_neg] using
    channels_of_sixths colored

/-- The lightness and half of the chroma above and below it are the two levels. -/
theorem toRgba_toHsla
    {degrees : Int}
    (inRange : color.HasChannels)
    (whole : color.exactHue = degrees) :
    color.toHsla.toRgba = color := by
  by_cases colored : 0 < color.toUnit.chroma
  · obtain ⟨red, green, blue⟩ := channels_of_hue colored
    have high := high_of_lightness inRange.lowest_nonneg inRange.highest_le_one colored
    have low := low_of_lightness inRange.lowest_nonneg inRange.highest_le_one colored
    simp only [chroma] at red green blue
    simp only [toHsla_of_whole whole colored, Hsla.toRgba_eq, Hsla.channel, high, low, red, green, blue]
    exact ofUnit_toUnit color
  · obtain ⟨same, back⟩ := eq_of_gray colored
    rw [toHsla_eq, if_neg colored, Hsla.toRgba_eq]
    simp only [Hsla.channel_of_gray]
    rw [lightness, same, add_self_div_two, back]

/-- What white and black leave is the chroma. -/
theorem toRgba_toHwba
    {degrees : Int}
    (whole : color.exactHue = degrees) :
    color.toHwba.toRgba = color := by
  by_cases colored : 0 < color.toUnit.chroma
  · obtain ⟨red, green, blue⟩ := channels_of_hue colored
    have isChroma : 1 - color.toUnit.lowest - (1 - color.toUnit.highest) = color.toUnit.chroma := by
      rw [chroma]
      ring
    have room : color.toHwba.whiteness + color.toHwba.blackness < 1 := by
      simp only [toHwba_eq]
      linarith
    rw [Hwba.toRgba_of_lt room]
    simp only [Hwba.channel, toHwba_eq, toHsla_of_whole whole colored, isChroma,
      mul_comm _ color.toUnit.chroma, red, green, blue]
    exact ofUnit_toUnit color
  · obtain ⟨same, back⟩ := eq_of_gray colored
    have full : color.toHwba.whiteness + color.toHwba.blackness = 1 := by
      simp only [toHwba_eq, same]
      ring
    rw [Hwba.toRgba_of_le full.ge]
    simp only [full, div_one]
    simpa only [toHwba_eq] using back

end Whole

/-- A color whose hue is a whole number of degrees is given back by its hue, saturation and lightness, and
by its hue, whiteness and blackness. -/
theorem hsla_hwba_convert_back
    {color : Rgba Rat}
    (inRange : color.HasChannels)
    (whole : ∃ degrees : Int, color.exactHue = degrees) :
    color.toHsla.toRgba = color ∧ color.toHwba.toRgba = color := by
  obtain ⟨degrees, isWhole⟩ := whole
  exact ⟨toRgba_toHsla inRange isWhole, toRgba_toHwba isWhole⟩

/-- Red is the highest channel and blue is above green, so that the hue of this color is counted from
the end of the turn. -/
theorem hsla_hwba_convert_back_rose :
    let rose : Rgba Rat := ⟨255, 0, 255 / 2, 1 / 2⟩
    rose.HasChannels ∧ rose.exactHue = (330 : Int) ∧
      rose.toHsla.toRgba = rose ∧ rose.toHwba.toRgba = rose := by
  intro rose
  have inRange : rose.HasChannels := by
    constructor <;> norm_num [rose]
  have hue : rose.exactHue = (330 : Int) := by decide +kernel
  exact ⟨inRange, hue, hsla_hwba_convert_back inRange ⟨330, hue⟩⟩

end Rgba

end StyleSense

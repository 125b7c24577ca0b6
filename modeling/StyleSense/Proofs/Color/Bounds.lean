import StyleSense.Proofs.Color.Division
import StyleSense.Proofs.Color.Exact

/-!
Contract: the channels that a color call computes.

Owns:
- `Hsla.hasChannels` and `Hwba.hasChannels`: whatever the hue, the channels stay between the lowest and the
  highest level, and these within the range;
- `Rgba.ofCall_inRange`: the color of a call has its channels and its alpha in range, and no division by
  zero is made on the way.

Does not own: checked arithmetic (`StyleSense.Proofs.Color.Division`).
-/

namespace StyleSense

open Arithmetic

/-- A number from 0 to 1. -/
def IsShare (x : Rat) : Prop :=
  0 ≤ x ∧ x ≤ 1

/-- A height between two levels from 0 to 1 is from 0 to 1. -/
theorem isShare_between
    {low high height : Rat}
    (notBelow : 0 ≤ low)
    (ordered : low ≤ high)
    (notAbove : high ≤ 1)
    (isHeight : IsShare height) :
    IsShare ((high - low) * height + low) := by
  have up := mul_nonneg (sub_nonneg.mpr ordered) isHeight.1
  have down := mul_nonneg (sub_nonneg.mpr ordered) (sub_nonneg.mpr isHeight.2)
  constructor <;> linarith

theorem IsShare.channel
    {x : Rat}
    (isShare : IsShare x) :
    0 ≤ x * 255 ∧ x * 255 ≤ 255 := by
  obtain ⟨notBelow, notAbove⟩ := isShare
  constructor <;> linarith

theorem Rgba.hasChannels_ofUnit
    {red green blue : Rat}
    (isRed : IsShare red)
    (isGreen : IsShare green)
    (isBlue : IsShare blue)
    (alpha : Rat) :
    (ofUnit red green blue alpha).HasChannels := by
  rw [ofUnit_eq]
  exact ⟨isRed.channel, isGreen.channel, isBlue.channel⟩

namespace Hsla

theorem alpha_toRgba (color : Hsla Rat) : color.toRgba.alpha = color.alpha := by
  rw [toRgba_eq]
  rfl

variable
  {color : Hsla Rat}
  (saturated : IsShare color.saturation)
  (lit : IsShare color.lightness)

include saturated lit

/-- The levels of a color are in order and in range. -/
theorem levels_ordered : 0 ≤ color.low ∧ color.low ≤ color.high ∧ color.high ≤ 1 := by
  -- both formulas for the highest level are linear in these four products
  have dark := mul_nonneg lit.1 saturated.1
  have dull := mul_nonneg lit.1 (sub_nonneg.mpr saturated.2)
  have light := mul_nonneg (sub_nonneg.mpr lit.2) saturated.1
  have pale := mul_nonneg (sub_nonneg.mpr lit.2) (sub_nonneg.mpr saturated.2)
  unfold low high
  split_ifs <;> refine ⟨?_, ?_, ?_⟩ <;> linarith

theorem channel_isShare (shift : Rat) : IsShare (color.channel shift) :=
  have ⟨notBelow, ordered, notAbove⟩ := levels_ordered saturated lit
  isShare_between notBelow ordered notAbove (hueLevel_mem _)

theorem hasChannels : color.toRgba.HasChannels := by
  rw [toRgba_eq]
  exact Rgba.hasChannels_ofUnit (channel_isShare saturated lit _) (channel_isShare saturated lit _)
    (channel_isShare saturated lit _) _

end Hsla

namespace Hwba

theorem alpha_toRgba (color : Hwba Rat) : color.toRgba.alpha = color.alpha := by
  rcases lt_or_ge (color.whiteness + color.blackness) 1 with room | full
  · rw [toRgba_of_lt room]
    rfl
  · rw [toRgba_of_le full]
    rfl

variable
  {color : Hwba Rat}
  (white : IsShare color.whiteness)
  (black : IsShare color.blackness)

include white black

theorem channel_isShare
    (room : color.whiteness + color.blackness < 1)
    (shift : Rat) :
    IsShare (color.channel shift) := by
  have between := isShare_between white.1 (by linarith : color.whiteness ≤ 1 - color.blackness)
    (by linarith [black.1]) (hueLevel_mem (color.hue / 60 + shift))
  have isChannel : color.channel shift =
      (1 - color.blackness - color.whiteness) * hueLevel (color.hue / 60 + shift) + color.whiteness := by
    rw [channel]
    ring
  rwa [isChannel]

theorem hasChannels : color.toRgba.HasChannels := by
  rcases lt_or_ge (color.whiteness + color.blackness) 1 with room | full
  · rw [toRgba_of_lt room]
    exact Rgba.hasChannels_ofUnit (channel_isShare white black room _)
      (channel_isShare white black room _) (channel_isShare white black room _) _
  · rw [toRgba_of_le full]
    have isGray : IsShare (color.whiteness / (color.whiteness + color.blackness)) := by
      refine ⟨div_nonneg white.1 (by linarith), ?_⟩
      rw [div_le_one (by linarith)]
      linarith [black.1]
    exact Rgba.hasChannels_ofUnit isGray isGray isGray _

end Hwba

/-! ## Calls -/

theorem exists_of_bind_eq_ok
    {ε α β : Type}
    {first : Except ε α}
    {next : α → Except ε β}
    {result : β}
    (computed : (first >>= next) = .ok result) :
    ∃ x, first = .ok x ∧ next x = .ok result := by
  cases first with
  | ok x => exact ⟨x, rfl, computed⟩
  | error reason => cases computed

/-- A channel that is accepted is from 0 to 1. -/
theorem Channel.isShare_of_fraction
    {channel : Channel Rat}
    {whole x : Rat}
    (accepted : channel.fraction whole = .ok x) :
    IsShare x := by
  have zero : (0.0 : Rat) = 0 := by norm_num
  have one : (1.0 : Rat) = 1 := by norm_num
  have within : ∀ {scaled : Rat} {reason : ColorError Rat},
      (if (lessEqual 0.0 scaled && lessEqual scaled 1.0) = true then Except.ok scaled
        else .error reason) = .ok x → IsShare x := by
    intro scaled reason isWithin
    split_ifs at isWithin with inRange
    · obtain rfl := Except.ok.inj isWithin
      simpa only [IsShare, lessEqual, Bool.and_eq_true, decide_eq_true_eq, zero, one] using inRange
  unfold fraction at accepted
  split at accepted
  · exact within accepted
  · split_ifs at accepted
    · exact within accepted
    · exact within accepted

namespace Rgba

/-- The color that channels denote is in range. -/
theorem hasChannels_ofChannels
    {name : String}
    {first second third : Channel Rat}
    {alpha : Rat}
    {color : Rgba Rat}
    (computed : ofChannels name first second third alpha = .ok color) :
    color.HasChannels ∧ color.alpha = alpha := by
  have most : (255.0 : Rat) = 255 := by norm_num
  unfold ofChannels at computed
  split_ifs at computed
  · obtain ⟨red, isRed, computed⟩ := exists_of_bind_eq_ok computed
    obtain ⟨green, isGreen, computed⟩ := exists_of_bind_eq_ok computed
    obtain ⟨blue, isBlue, computed⟩ := exists_of_bind_eq_ok computed
    obtain rfl := Except.ok.inj computed
    rw [most]
    exact ⟨⟨(Channel.isShare_of_fraction isRed).channel,
      (Channel.isShare_of_fraction isGreen).channel,
      (Channel.isShare_of_fraction isBlue).channel⟩, rfl⟩
  · obtain ⟨hue, isHue, computed⟩ := exists_of_bind_eq_ok computed
    obtain ⟨saturation, isSaturation, computed⟩ := exists_of_bind_eq_ok computed
    obtain ⟨lightness, isLightness, computed⟩ := exists_of_bind_eq_ok computed
    obtain rfl := Except.ok.inj computed
    exact ⟨Hsla.hasChannels (Channel.isShare_of_fraction isSaturation)
      (Channel.isShare_of_fraction isLightness), Hsla.alpha_toRgba _⟩
  · obtain ⟨hue, isHue, computed⟩ := exists_of_bind_eq_ok computed
    obtain ⟨white, isWhite, computed⟩ := exists_of_bind_eq_ok computed
    obtain ⟨black, isBlack, computed⟩ := exists_of_bind_eq_ok computed
    obtain rfl := Except.ok.inj computed
    exact ⟨Hwba.hasChannels (Channel.isShare_of_fraction isWhite)
      (Channel.isShare_of_fraction isBlack), Hwba.alpha_toRgba _⟩

/-- The color of a call is in range. -/
theorem hasChannels_ofCall
    {name : String}
    {channels : List (Channel Rat)}
    {color : Rgba Rat}
    (computed : ofCall name channels = .ok color) :
    color.HasChannels ∧ IsShare color.alpha := by
  unfold ofCall at computed
  split at computed
  · obtain ⟨inRange, isAlpha⟩ := hasChannels_ofChannels computed
    refine ⟨inRange, ?_⟩
    rw [isAlpha]
    constructor <;> norm_num
  · obtain ⟨alpha, isFourth, computed⟩ := exists_of_bind_eq_ok computed
    obtain ⟨inRange, rfl⟩ := hasChannels_ofChannels computed
    exact ⟨inRange, Channel.isShare_of_fraction isFourth⟩
  · cases computed

/-- Whatever the hue, the color of a call has its channels and its alpha in range. No division by zero is
made: arithmetic in which such a division leaves nothing gives the same outcome, however comparisons with
nothing are guessed. -/
theorem ofCall_inRange
    (name : String)
    (channels : List (Channel Rat)) :
    (∀ color, ofCall name channels = .ok color →
      color.HasChannels ∧ 0 ≤ color.alpha ∧ color.alpha ≤ 1) ∧
    ∀ guess, ofCall name (channels.map (Channel.map (Checked.of : Rat → Checked guess))) =
      checkedOutcome (map Checked.of) (ofCall name channels) :=
  ⟨fun _ computed => hasChannels_ofCall computed, fun _ => ofCall_map name channels⟩

/-- A hue of many turns backwards. -/
theorem ofCall_inRange_backwards :
    let channels : List (Channel Rat) :=
      [⟨-3600030, some "deg"⟩, ⟨100, some "%"⟩, ⟨25, some "%"⟩, ⟨1 / 4, none⟩]
    let color : Rgba Rat := ⟨255 / 2, 0, 255 / 4, 1 / 4⟩
    ofCall "hsla" channels = .ok color ∧ color.HasChannels ∧ 0 ≤ color.alpha ∧ color.alpha ≤ 1 := by
  intro channels color
  have computed : ofCall "hsla" channels = .ok color := by decide +kernel
  exact ⟨computed, (ofCall_inRange "hsla" channels).1 color computed⟩

end Rgba

end StyleSense

import StyleSense.Color.Presentation
import StyleSense.Proofs.Color.Hue
import StyleSense.Proofs.Expression.Constructor
import StyleSense.Proofs.Number.Digits

/-!
Contract: the ways to write a color as calls and hexadecimal digits.

Owns:
- `Hex.read_write`: hexadecimal digits are read back as the bytes that they were written for;
- `ColorText`, a call of a constructor whose channels are accepted, or hexadecimal digits;
- `Rgba.presentations_colorText`: every way to write a color in range is such a text.

Does not own: where such a text is found in a document (`StyleSense.Proofs.Swatch.ReadBack`).
-/

namespace StyleSense

open Number Number.Binary Arithmetic

/-! ## Hexadecimal digits -/

namespace Hex

theorem digit?_digit
    {value : Nat}
    (small : value < 16) :
    digit? (digit value) = some value := by
  have each : ∀ value ∈ List.range 16, digit? (digit value) = some value := by decide
  exact each value (List.mem_range.mpr small)

theorem digits_append_byte
    {α : Type}
    {cs : List Char}
    {values : List Nat}
    (read : (digits cs : Except (ColorError α) (List Nat)) = .ok values)
    {value : Nat}
    (isByte : value ≤ 255) :
    (digits (byte value ++ cs) : Except (ColorError α) (List Nat)) =
      .ok (value / 16 :: value % 16 :: values) := by
  have high := digit?_digit (show value / 16 < 16 by omega)
  have low := digit?_digit (show value % 16 < 16 by omega)
  simp only [byte, List.cons_append, List.nil_append, digits, high, low, read]

/-- Channel bytes are read back. -/
theorem read_write
    {α : Type}
    [Arithmetic α]
    {red green blue : Nat}
    {alpha : Option Nat}
    (isRed : red ≤ 255)
    (isGreen : green ≤ 255)
    (isBlue : blue ≤ 255)
    (isAlpha : ∀ value ∈ alpha, value ≤ 255) :
    (read (write red green blue alpha) : Except (ColorError α) (Rgba α)) =
      .ok (ofBytes red green blue (alpha.getD 255)) := by
  have joined : ∀ value : Nat, value / 16 * 16 + value % 16 = value := fun value => by omega
  have last : (digits ((alpha.map byte).getD []) : Except (ColorError α) (List Nat)) =
      .ok ((alpha.map fun value => [value / 16, value % 16]).getD []) := by
    cases alpha with
    | none => rfl
    | some value =>
      have read := @digits_append_byte α [] [] rfl value (isAlpha value rfl)
      rwa [List.append_nil] at read
  have read := digits_append_byte (digits_append_byte (digits_append_byte last isBlue) isGreen) isRed
  unfold Hex.read write
  simp only [List.append_assoc, if_true, read]
  cases alpha with
  | none => simp only [Option.map_none, Option.getD_none, bytes?, joined]
  | some value => simp only [Option.map_some, Option.getD_some, bytes?, joined]

end Hex

/-! ## Accepted channels -/

/-- A whole number, or a whole percentage. -/
def WrittenNumber.ofNat (n : Nat) (percent : Bool) : WrittenNumber :=
  ⟨false, Decimal.digits n, percent, Decimal.digits_isNumeral n⟩

theorem WrittenNumber.text_ofNat
    (n : Nat)
    (percent : Bool) :
    (WrittenNumber.ofNat n percent).text =
      (toString n).toList ++ if percent then ['%'] else [] := by
  rw [Decimal.toList_toString]
  rfl

/-- The channel lies within its range. -/
def Channel.IsFraction (channel : Channel Float) (whole : Float) : Prop :=
  (channel.fraction whole).isOk = true

instance (channel : Channel Float) (whole : Float) : Decidable (channel.IsFraction whole) :=
  inferInstanceAs (Decidable (_ = true))

theorem exists_of_isOk
    {ε α : Type}
    {result : Except ε α}
    (isOk : result.isOk = true) :
    ∃ value, result = .ok value := by
  cases result with
  | ok value => exact ⟨value, rfl⟩
  | error reason => cases isOk

/-- A whole number is read back without rounding. -/
theorem WrittenNumber.channel_ofNat
    {n : Nat}
    (small : n < 2 ^ 53)
    (percent : Bool) :
    (WrittenNumber.ofNat n percent).channel =
      ⟨toFloat ⟨false, n, 0⟩, (WrittenNumber.ofNat n percent).suffix⟩ := by
  have magnitude : (WrittenNumber.ofNat n percent).magnitude = toFloat ⟨false, n, 0⟩ := by
    rw [WrittenNumber.magnitude, WrittenNumber.ofNat, numeralValue?_digits small, Option.getD_some]
  rw [← magnitude]
  rfl

theorem byte_isFraction
    {n : Nat}
    (isByte : n ≤ 255) :
    (WrittenNumber.ofNat n false).channel.IsFraction 255.0 := by
  have each : ∀ n ∈ List.range 256, Channel.IsFraction ⟨toFloat ⟨false, n, 0⟩, none⟩ 255.0 := by
    decide +kernel
  rw [WrittenNumber.channel_ofNat (by omega)]
  exact each n (List.mem_range.mpr (by omega))

theorem percentage_isFraction
    {n : Nat}
    (isPercentage : n ≤ 100)
    (whole : Float) :
    (WrittenNumber.ofNat n true).channel.IsFraction whole := by
  have each : ∀ n ∈ List.range 101,
      Channel.IsFraction ⟨toFloat ⟨false, n, 0⟩, some "%"⟩ 100.0 := by
    decide +kernel
  have noWhole : ∀ value : Float, (⟨value, some "%"⟩ : Channel Float).fraction whole =
      (⟨value, some "%"⟩ : Channel Float).fraction 100.0 := by
    intro value
    simp [Channel.fraction]
  rw [WrittenNumber.channel_ofNat (by omega), Channel.IsFraction, WrittenNumber.suffix,
    WrittenNumber.ofNat, if_pos rfl, noWhole]
  exact each n (List.mem_range.mpr (by omega))

theorem roundWithin_le
    (most : Nat)
    (x : Float) :
    roundWithin most x ≤ most := by
  unfold roundWithin
  split
  · split <;> omega
  · split
    · omega
    · exact Nat.min_le_left _ _

/-! ## Alpha -/

/-- A text without the zeros at its end and without the points before them. -/
def trimZeros (cs : List Char) : List Char :=
  ((cs.reverse.dropWhile (· == '0')).dropWhile (· == '.')).reverse

theorem toList_alphaText
    {alpha : Float}
    (notBelow : ¬alpha < 0.0)
    (notAbove : ¬1.0 < alpha) :
    (alphaText alpha).toList = trimZeros (fixed2 alpha).toList := by
  rw [alphaText, if_neg notBelow, if_neg notAbove, String.toList_ofList]
  rfl

theorem trimZeros_hundredthsText
    {hundredths : Nat}
    (isWithin : hundredths ≤ 100) :
    isNumeral (trimZeros (hundredthsText hundredths)) = true ∧
      Channel.IsFraction
        ⟨(Token.numeralValue? (trimZeros (hundredthsText hundredths))).getD 0.0, none⟩ 1.0 := by
  have each : ∀ hundredths ∈ List.range 101,
      isNumeral (trimZeros (hundredthsText hundredths)) = true ∧ Channel.IsFraction
        ⟨(Token.numeralValue? (trimZeros (hundredthsText hundredths))).getD 0.0, none⟩ 1.0 := by
    decide +kernel
  exact each hundredths (List.mem_range.mpr (by omega))

/-- Alpha is written as a number that is accepted as alpha. -/
theorem exists_alphaText
    {alpha : Float}
    (inRange : 0.0 ≤ alpha ∧ alpha ≤ 1.0) :
    ∃ number : WrittenNumber, (alphaText alpha).toList = number.text ∧
      number.channel.IsFraction 1.0 := by
  obtain ⟨b, parts, notNegative, notAbove⟩ :=
    exists_of_between ofFloat?_zero ofFloat?_one inRange.1 inRange.2
  have text := toList_alphaText (mt (lt_iff parts ofFloat?_zero).mp (not_lt.mpr notNegative))
    (mt (lt_iff ofFloat?_one parts).mp (not_lt.mpr notAbove))
  rw [scaled_zero] at notNegative
  rw [scaled_one] at notAbove
  rcases fixed2_of_between parts notNegative notAbove with ⟨hundredths, isWithin, places⟩ | negative
  · obtain ⟨accepted, isFraction⟩ := trimZeros_hundredthsText isWithin
    refine ⟨⟨false, _, false, isNumeral_sound accepted⟩, ?_, isFraction⟩
    rw [text, places]
    simp [WrittenNumber.text]
  · -- a zero keeps its sign
    refine ⟨⟨true, ['0'], false, isNumeral_sound (by decide)⟩, ?_, by decide +kernel⟩
    rw [text, negative]
    decide

/-! ## Calls -/

/-- A text that is read as one color. -/
inductive ColorText : List Char → Prop where
  | call {name : String} {arguments : WrittenArguments} {color : Rgba Float}
      (isConstructor : name ∈ Rgba.constructors)
      (separate : arguments.Separate)
      (accepted : Rgba.ofCall name arguments.channels = .ok color) :
      ColorText (callText name arguments)
  | hex {red green blue : Nat} {alpha : Option Nat}
      (isRed : red ≤ 255)
      (isGreen : green ≤ 255)
      (isBlue : blue ≤ 255)
      (isAlpha : ∀ value ∈ alpha, value ≤ 255) :
      ColorText (Hex.write red green blue alpha)

section Channels

variable {first second third : Channel Float} {name : String}

theorem ofChannels_rgb
    (isName : name = "rgb" ∨ name = "rgba")
    (isFirst : first.IsFraction 255.0)
    (isSecond : second.IsFraction 255.0)
    (isThird : third.IsFraction 255.0)
    (alpha : Float) :
    ∃ color, Rgba.ofChannels name first second third alpha = .ok color := by
  obtain ⟨red, isRed⟩ := exists_of_isOk isFirst
  obtain ⟨green, isGreen⟩ := exists_of_isOk isSecond
  obtain ⟨blue, isBlue⟩ := exists_of_isOk isThird
  refine ⟨⟨red * 255.0, green * 255.0, blue * 255.0, alpha⟩, ?_⟩
  have isRgb : (decide (name = "rgb") || decide (name = "rgba")) = true := by simpa using isName
  rw [Rgba.ofChannels, if_pos isRgb, isRed, isGreen, isBlue]
  rfl

theorem degrees_of_suffix
    (noSuffix : first.suffix = none) :
    first.degrees = .ok (Arithmetic.remainder first.value 360.0) := by
  simp only [Channel.degrees, noSuffix]

theorem ofChannels_hue
    (isName : name = "hsl" ∨ name = "hsla" ∨ name = "hwb")
    (noSuffix : first.suffix = none)
    (isSecond : second.IsFraction 100.0)
    (isThird : third.IsFraction 100.0)
    (alpha : Float) :
    ∃ color, Rgba.ofChannels name first second third alpha = .ok color := by
  have isHue := degrees_of_suffix noSuffix
  obtain ⟨left, isLeft⟩ := exists_of_isOk isSecond
  obtain ⟨right, isRight⟩ := exists_of_isOk isThird
  unfold Rgba.ofChannels
  rw [isHue, isLeft, isRight]
  rcases isName with rfl | rfl | rfl <;> exact ⟨_, rfl⟩

theorem ofCall_with_alpha
    {alpha : Channel Float}
    (accepted : ∀ alpha, ∃ color, Rgba.ofChannels name first second third alpha = .ok color)
    (isAlpha : alpha.IsFraction 1.0) :
    ∃ color, Rgba.ofCall name [first, second, third, alpha] = .ok color := by
  obtain ⟨fourth, isFourth⟩ := exists_of_isOk isAlpha
  rw [Rgba.ofCall, isFourth]
  exact accepted fourth

end Channels

/-! ## Presentations -/

namespace Rgba

variable {color : Rgba Float}

theorem rgbText_colorText (inRange : color.InRange) : ColorText color.rgbText.toList := by
  let red := WrittenNumber.ofNat (channelByte color.red) false
  let green := WrittenNumber.ofNat (channelByte color.green) false
  let blue := WrittenNumber.ofNat (channelByte color.blue) false
  have accepted : ∀ name, name = "rgb" ∨ name = "rgba" → ∀ alpha, ∃ result,
      ofChannels name red.channel green.channel blue.channel alpha = .ok result :=
    fun name isName => ofChannels_rgb isName (byte_isFraction (roundWithin_le 255 _))
      (byte_isFraction (roundWithin_le 255 _)) (byte_isFraction (roundWithin_le 255 _))
  by_cases isFull : isOpaque color.alpha = true
  · obtain ⟨result, isOk⟩ := accepted "rgb" (.inl rfl) 1.0
    have text : color.rgbText.toList = callText "rgb" (.commas red [green, blue]) := by
      simp [rgbText, isFull, callText, WrittenArguments.text, red, green, blue,
        WrittenNumber.text_ofNat]
    rw [text]
    exact .call (by decide) trivial isOk
  · obtain ⟨alpha, isAlphaText, isAlpha⟩ := exists_alphaText inRange.alpha
    obtain ⟨result, isOk⟩ := ofCall_with_alpha (accepted "rgba" (.inr rfl)) isAlpha
    have text : color.rgbText.toList = callText "rgba" (.commas red [green, blue, alpha]) := by
      simp [rgbText, isFull, callText, WrittenArguments.text, red, green, blue,
        WrittenNumber.text_ofNat, isAlphaText]
    rw [text]
    exact .call (by decide) trivial isOk

theorem hexText_colorText (color : Rgba Float) : ColorText color.hexText.toList := by
  rw [hexText, String.toList_ofList]
  refine .hex (roundWithin_le 255 _) (roundWithin_le 255 _) (roundWithin_le 255 _) ?_
  intro value isAlpha
  split at isAlpha
  · cases isAlpha
  · cases isAlpha
    exact roundWithin_le 255 _

theorem alpha_toHsla (color : Rgba Float) : color.toHsla.alpha = color.alpha := by
  unfold toHsla
  simp only
  split <;> rfl

/-- The hue is written as a number without a suffix. -/
theorem exists_hueText (inRange : color.InRange) :
    ∃ number : WrittenNumber, (Number.plain color.toHsla.hue).toList = number.text ∧
      number.channel.suffix = none := by
  obtain ⟨b, parts⟩ := exists_hue inRange
  obtain ⟨number, text, noPercent⟩ := exists_plain parts
  refine ⟨number, text, ?_⟩
  rw [WrittenNumber.channel, WrittenNumber.suffix, noPercent]
  rfl

theorem hslText_colorText (inRange : color.InRange) : ColorText color.hslText.toList := by
  obtain ⟨hue, isHueText, noSuffix⟩ := exists_hueText inRange
  let saturation := WrittenNumber.ofNat (percentage color.toHsla.saturation) true
  let lightness := WrittenNumber.ofNat (percentage color.toHsla.lightness) true
  have accepted : ∀ name, name = "hsl" ∨ name = "hsla" → ∀ alpha, ∃ result,
      ofChannels name hue.channel saturation.channel lightness.channel alpha = .ok result :=
    fun name isName => ofChannels_hue (isName.imp_right .inl) noSuffix
      (percentage_isFraction (roundWithin_le 100 _) _) (percentage_isFraction (roundWithin_le 100 _) _)
  by_cases isFull : isOpaque color.alpha = true
  · obtain ⟨result, isOk⟩ := accepted "hsl" (.inl rfl) 1.0
    have text : color.hslText.toList = callText "hsl" (.commas hue [saturation, lightness]) := by
      simp [hslText, alpha_toHsla, isFull, callText, WrittenArguments.text, saturation, lightness,
        WrittenNumber.text_ofNat, isHueText]
    rw [text]
    exact .call (by decide) trivial isOk
  · obtain ⟨alpha, isAlphaText, isAlpha⟩ := exists_alphaText inRange.alpha
    obtain ⟨result, isOk⟩ := ofCall_with_alpha (accepted "hsla" (.inr rfl)) isAlpha
    have text : color.hslText.toList =
        callText "hsla" (.commas hue [saturation, lightness, alpha]) := by
      simp [hslText, alpha_toHsla, isFull, callText, WrittenArguments.text, saturation, lightness,
        WrittenNumber.text_ofNat, isHueText, isAlphaText]
    rw [text]
    exact .call (by decide) trivial isOk

theorem hwbText_colorText (inRange : color.InRange) : ColorText color.hwbText.toList := by
  obtain ⟨hue, isHueText, noSuffix⟩ := exists_hueText inRange
  have isHueText : (Number.plain color.toHwba.hue).toList = hue.text := isHueText
  have sameAlpha : color.toHwba.alpha = color.alpha := rfl
  let white := WrittenNumber.ofNat (percentage color.toHwba.whiteness) true
  let black := WrittenNumber.ofNat (percentage color.toHwba.blackness) true
  have accepted : ∀ alpha, ∃ result,
      ofChannels "hwb" hue.channel white.channel black.channel alpha = .ok result :=
    ofChannels_hue (.inr (.inr rfl)) noSuffix
      (percentage_isFraction (roundWithin_le 100 _) _) (percentage_isFraction (roundWithin_le 100 _) _)
  by_cases isFull : isOpaque color.alpha = true
  · obtain ⟨result, isOk⟩ := accepted 1.0
    have text : color.hwbText.toList =
        callText "hwb" (.blanks hue [⟨white, none⟩, ⟨black, none⟩]) := by
      simp [hwbText, sameAlpha, isFull, callText, WrittenArguments.text, WrittenTerm.text, white,
        black, WrittenNumber.text_ofNat, isHueText]
    rw [text]
    exact .call (by decide) (by simp [WrittenArguments.Separate, white, black, WrittenNumber.ofNat])
      isOk
  · obtain ⟨alpha, isAlphaText, isAlpha⟩ := exists_alphaText inRange.alpha
    obtain ⟨result, isOk⟩ := ofCall_with_alpha accepted isAlpha
    have text : color.hwbText.toList =
        callText "hwb" (.blanks hue [⟨white, none⟩, ⟨black, some alpha⟩]) := by
      simp [hwbText, sameAlpha, isFull, callText, WrittenArguments.text, WrittenTerm.text, white,
        black, WrittenNumber.text_ofNat, isHueText, isAlphaText]
    rw [text]
    exact .call (by decide) (by simp [WrittenArguments.Separate, white, black, WrittenNumber.ofNat])
      isOk

/-- Every way to write a color in range is read as a color. -/
theorem presentations_colorText
    (inRange : color.InRange)
    {presentation : String}
    (isOffered : presentation ∈ color.presentations) :
    ColorText presentation.toList := by
  simp only [presentations, List.mem_cons, List.not_mem_nil, or_false] at isOffered
  rcases isOffered with rfl | rfl | rfl | rfl
  · exact rgbText_colorText inRange
  · exact hexText_colorText color
  · exact hslText_colorText inRange
  · exact hwbText_colorText inRange

end Rgba

end StyleSense

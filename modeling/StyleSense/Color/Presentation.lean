import StyleSense.Color.Conversion
import StyleSense.Color.Hex

/-!
Contract: the ways to write a color.

Owns:
- `Rgba.rgbText`, `Rgba.hexText`, `Rgba.hslText` and `Rgba.hwbText`;
- `Rgba.presentations`, all four in the order in which a picker offers them.

Does not own: reading such texts back, which is the work of the value parser.
-/

namespace StyleSense

/-- A channel as a byte. -/
def channelByte (x : Float) : Nat :=
  Number.roundWithin 255 x

/-- A fraction as a whole percentage. -/
def percentage (x : Float) : Nat :=
  Number.roundWithin 100 (x * 100.0)

/-- Alpha with at most two places and no zero at the end. -/
def alphaText (alpha : Float) : String :=
  let clamped := if alpha < 0.0 then 0.0 else if 1.0 < alpha then 1.0 else alpha
  let places := (Number.fixed2 clamped).toList.reverse.dropWhile (· == '0')
  String.ofList (places.dropWhile (· == '.')).reverse

/-- From this alpha on a color counts as opaque. -/
def opaqueAlpha : Float := 0.999

/-- Whether a color is written without its alpha. -/
def isOpaque (alpha : Float) : Bool :=
  opaqueAlpha ≤ alpha

namespace Rgba

/-- As `rgb()` or `rgba()`. -/
def rgbText (color : Rgba Float) : String :=
  let channels :=
    toString (channelByte color.red) ++ ", " ++ toString (channelByte color.green) ++ ", "
      ++ toString (channelByte color.blue)
  if isOpaque color.alpha then "rgb(" ++ channels ++ ")"
  else "rgba(" ++ channels ++ ", " ++ alphaText color.alpha ++ ")"

/-- As `#rrggbb` or `#rrggbbaa`. -/
def hexText (color : Rgba Float) : String :=
  let alpha := if isOpaque color.alpha then none else some (channelByte (color.alpha * 255.0))
  String.ofList
    (Hex.write (channelByte color.red) (channelByte color.green) (channelByte color.blue) alpha)

/-- As `hsl()` or `hsla()`. -/
def hslText (color : Rgba Float) : String :=
  let hsl := color.toHsla
  let components :=
    Number.plain hsl.hue ++ ", " ++ toString (percentage hsl.saturation) ++ "%, "
      ++ toString (percentage hsl.lightness) ++ "%"
  if isOpaque hsl.alpha then "hsl(" ++ components ++ ")"
  else "hsla(" ++ components ++ ", " ++ alphaText hsl.alpha ++ ")"

/-- As `hwb()` with blanks between the components and a slash before alpha. -/
def hwbText (color : Rgba Float) : String :=
  let hwb := color.toHwba
  let components :=
    Number.plain hwb.hue ++ " " ++ toString (percentage hwb.whiteness) ++ "% "
      ++ toString (percentage hwb.blackness) ++ "%"
  if isOpaque hwb.alpha then "hwb(" ++ components ++ ")"
  else "hwb(" ++ components ++ " / " ++ alphaText hwb.alpha ++ ")"

/-- Every way to write a color. -/
def presentations (color : Rgba Float) : List String :=
  [color.rgbText, color.hexText, color.hslText, color.hwbText]

end Rgba

end StyleSense

import StyleSense.Color.Basic

/-!
Contract: colors from channel values, and between the forms of a color.

Owns:
- `Channel.fraction` and `Channel.degrees`, which scale a written number to a channel;
- `Hsla.toRgba`, `Hwba.toRgba`, `Rgba.toHsla` and `Rgba.toHwba`;
- `Rgba.ofCall`, the color that a constructor call with literal channels denotes.

Does not own: the search for such calls in a stylesheet (`StyleSense.Swatch.Occurrence`).
-/

namespace StyleSense

open Arithmetic

variable {α : Type} [Arithmetic α]

/-- A number with the suffix written after it, if any. -/
structure Channel (α : Type) where
  value : α
  suffix : Option String
deriving DecidableEq, Repr

namespace Channel

/-- The channel scaled to the range from 0 to 1: a percentage is divided by 100, a bare number by
`whole`. No other suffix and no result outside the range is accepted. -/
def fraction (channel : Channel α) (whole : α) : Except (ColorError α) α :=
  let within (scaled : α) : Except (ColorError α) α :=
    if lessEqual 0.0 scaled && lessEqual scaled 1.0 then .ok scaled
    else .error (.outOfRange channel.value)
  match channel.suffix with
  | none => within (channel.value / whole)
  | some suffix =>
    if suffix = "" then within (channel.value / whole)
    else if suffix = "%" then within (channel.value / 100.0)
    else .error (.unsupportedUnit suffix)

/-- The channel as an angle in degrees, less than a full turn in magnitude. -/
def degrees (channel : Channel α) : Except (ColorError α) α :=
  let reduced (angle : α) : Except (ColorError α) α := .ok (remainder angle 360.0)
  match channel.suffix with
  | none => reduced channel.value
  | some suffix =>
    if suffix = "" || suffix = "deg" then reduced channel.value
    else if suffix = "rad" then reduced (channel.value * 57.29577951308232)
    else if suffix = "grad" then reduced (channel.value * 0.9)
    else if suffix = "turn" then reduced (channel.value * 360.0)
    else .error (.unsupportedUnit suffix)

end Channel

/-- One channel of a hue between the two levels `low` and `high`; `hue` is in sixths of a turn. -/
def hueChannel (low high hue : α) : α :=
  let hue := modulo hue 6.0
  if less hue 1.0 then (high - low) * hue + low
  else if less hue 3.0 then high
  else if less hue 4.0 then (high - low) * (4.0 - hue) + low
  else low

/-- From hue, saturation and lightness to red, green and blue. -/
def Hsla.toRgba (color : Hsla α) : Rgba α :=
  let saturation := color.saturation
  let lightness := color.lightness
  if equal saturation 0.0 then Rgba.ofUnit lightness lightness lightness color.alpha
  else
    let hue := color.hue / 60.0
    let high :=
      if lessEqual lightness 0.5 then lightness * (saturation + 1.0)
      else lightness + saturation - lightness * saturation
    let low := lightness * 2.0 - high
    Rgba.ofUnit (hueChannel low high (hue + 2.0)) (hueChannel low high hue)
      (hueChannel low high (hue - 2.0)) color.alpha

/-- From hue, whiteness and blackness to red, green and blue. -/
def Hwba.toRgba (color : Hwba α) : Rgba α :=
  let white := color.whiteness
  let black := color.blackness
  if lessEqual 1.0 (white + black) then
    let gray := white / (white + black)
    Rgba.ofUnit gray gray gray color.alpha
  else
    let pure := (Hsla.toRgba ⟨color.hue, 1.0, 0.5, color.alpha⟩).toUnit
    let scale := 1.0 - white - black
    Rgba.ofUnit (pure.red * scale + white) (pure.green * scale + white) (pure.blue * scale + white)
      color.alpha

namespace Rgba

/-- The greatest of the three channels. -/
def highest (color : Rgba α) : α :=
  greater (greater color.red color.green) color.blue

/-- The smallest of the three channels. -/
def lowest (color : Rgba α) : α :=
  smaller (smaller color.red color.green) color.blue

/-- From red, green and blue to hue, saturation and lightness; the hue is a whole number of
degrees. -/
def toHsla (color : Rgba α) : Hsla α :=
  let unit := color.toUnit
  let high := unit.highest
  let low := unit.lowest
  let lightness := (low + high) / 2.0
  let chroma := high - low
  if less 0.0 chroma then
    let saturation :=
      if lessEqual lightness 0.5 then chroma / (2.0 * lightness)
      else chroma / (2.0 - 2.0 * lightness)
    let sixths :=
      if equal high unit.red then
        (unit.green - unit.blue) / chroma + (if less unit.green unit.blue then 6.0 else 0.0)
      else if equal high unit.green then (unit.blue - unit.red) / chroma + 2.0
      else (unit.red - unit.green) / chroma + 4.0
    ⟨roundAway (sixths * 60.0), smaller saturation 1.0, lightness, unit.alpha⟩
  else ⟨0.0, 0.0, lightness, unit.alpha⟩

/-- From red, green and blue to hue, whiteness and blackness. -/
def toHwba (color : Rgba α) : Hwba α :=
  let unit := color.toUnit
  ⟨color.toHsla.hue, unit.lowest, 1.0 - unit.highest, unit.alpha⟩

/-- Names of the calls that construct a color. -/
def constructors : List String :=
  ["rgb", "rgba", "hsl", "hsla", "hwb"]

/-- Whether calls of that name construct a color. -/
def isConstructor (name : String) : Bool :=
  constructors.contains name

/-- The color that three channels denote under a constructor. -/
def ofChannels
    (name : String)
    (first second third : Channel α)
    (alpha : α) :
    Except (ColorError α) (Rgba α) :=
  if name = "rgb" || name = "rgba" then do
    let red ← first.fraction 255.0
    let green ← second.fraction 255.0
    let blue ← third.fraction 255.0
    return ⟨red * 255.0, green * 255.0, blue * 255.0, alpha⟩
  else if name = "hsl" || name = "hsla" then do
    let hue ← first.degrees
    let saturation ← second.fraction 100.0
    let lightness ← third.fraction 100.0
    return Hsla.toRgba ⟨hue, saturation, lightness, alpha⟩
  else if name = "hwb" then do
    let hue ← first.degrees
    let white ← second.fraction 100.0
    let black ← third.fraction 100.0
    return Hwba.toRgba ⟨hue, white, black, alpha⟩
  else .error (.notConstructor name)

/-- The color of a constructor call. Without a fourth channel it is opaque. -/
def ofCall (name : String) : List (Channel α) → Except (ColorError α) (Rgba α)
  | [first, second, third] => ofChannels name first second third 1.0
  | [first, second, third, fourth] => do
    let alpha ← fourth.fraction 1.0
    ofChannels name first second third alpha
  | channels => .error (.channelCount channels.length)

end Rgba

end StyleSense

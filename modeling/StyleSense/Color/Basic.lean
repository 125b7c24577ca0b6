import StyleSense.Color.Arithmetic
import StyleSense.Number.Decimal

/-!
Contract: color values.

Owns:
- `Rgba`, `Hsla` and `Hwba`, the three forms of a color;
- `ColorError`, why a text or a call is no color, with its wording.

Does not own: conversions between the forms (`StyleSense.Color.Conversion`).
-/

namespace StyleSense

/-- Red, green and blue from 0 to 255, alpha from 0 to 1. -/
structure Rgba (α : Type) where
  red : α
  green : α
  blue : α
  alpha : α
deriving DecidableEq, Repr

/-- Hue in degrees, the other components from 0 to 1. -/
structure Hsla (α : Type) where
  hue : α
  saturation : α
  lightness : α
  alpha : α
deriving DecidableEq, Repr

/-- Hue in degrees, the other components from 0 to 1. -/
structure Hwba (α : Type) where
  hue : α
  whiteness : α
  blackness : α
  alpha : α
deriving DecidableEq, Repr

namespace Rgba

variable {α : Type} [Arithmetic α]

/-- The color whose channels are given from 0 to 1. -/
def ofUnit (red green blue alpha : α) : Rgba α :=
  ⟨red * 255.0, green * 255.0, blue * 255.0, alpha⟩

/-- The color with its channels from 0 to 1. -/
def toUnit (color : Rgba α) : Rgba α :=
  ⟨color.red / 255.0, color.green / 255.0, color.blue / 255.0, color.alpha⟩

end Rgba

/-- Why a text or a call is no color. -/
inductive ColorError (α : Type) where
  | empty
  | missingHash
  | invalidLength (digits : Nat)
  | invalidHex (c : Char)
  | unknownName (name : String)
  | notConstructor (name : String)
  | channelCount (count : Nat)
  | unsupportedUnit (suffix : String)
  | outOfRange (value : α)
deriving DecidableEq, Repr

/-- The wording of a color error. -/
def ColorError.message : ColorError Float → String
  | .empty => "empty color string"
  | .missingHash => "color must start with '#'"
  | .invalidLength digits =>
    "invalid color length " ++ toString digits ++ ", expected 3, 4, 6, or 8"
  | .invalidHex c => "invalid hex character '" ++ String.singleton c ++ "'"
  | .unknownName name => "unknown color name '" ++ name ++ "'"
  | .notConstructor name => "'" ++ name ++ "' is not a color constructor"
  | .channelCount count => "expected 3 or 4 color channels, got " ++ toString count
  | .unsupportedUnit suffix => "unsupported unit '" ++ suffix ++ "' for color channel"
  | .outOfRange value => "color channel value " ++ Number.plain value ++ " out of range"

end StyleSense

import StyleSense.Color.Basic

/-!
Contract: hexadecimal colors.

Owns:
- `Hex.read`, which reads `#rgb`, `#rgba`, `#rrggbb` and `#rrggbbaa`;
- `Hex.write`, which writes channel bytes as `#rrggbb` or `#rrggbbaa`.

Does not own: the rounding of channels to bytes (`StyleSense.Color.Presentation`).
-/

namespace StyleSense.Hex

/-- The value of a hexadecimal digit of either case. -/
def digit? (c : Char) : Option Nat :=
  if '0' ≤ c ∧ c ≤ '9' then some (c.toNat - '0'.toNat)
  else if 'a' ≤ c ∧ c ≤ 'f' then some (c.toNat - 'a'.toNat + 10)
  else if 'A' ≤ c ∧ c ≤ 'F' then some (c.toNat - 'A'.toNat + 10)
  else none

/-- The values of a text of digits; the first character that is none is the error. -/
def digits {α : Type} : List Char → Except (ColorError α) (List Nat)
  | [] => .ok []
  | c :: cs =>
    match digit? c with
    | none => .error (.invalidHex c)
    | some value =>
      match digits cs with
      | .error error => .error error
      | .ok values => .ok (value :: values)

/-- The four channel bytes that 3, 4, 6 or 8 digits stand for; a short form doubles each digit. -/
def bytes? : List Nat → Option (Nat × Nat × Nat × Nat)
  | [r, g, b] => some (r * 17, g * 17, b * 17, 255)
  | [r, g, b, a] => some (r * 17, g * 17, b * 17, a * 17)
  | [r1, r2, g1, g2, b1, b2] => some (r1 * 16 + r2, g1 * 16 + g2, b1 * 16 + b2, 255)
  | [r1, r2, g1, g2, b1, b2, a1, a2] =>
    some (r1 * 16 + r2, g1 * 16 + g2, b1 * 16 + b2, a1 * 16 + a2)
  | _ => none

/-- The color whose channels are given as bytes. -/
def ofBytes {α : Type} [Arithmetic α] (red green blue alpha : Nat) : Rgba α :=
  ⟨Arithmetic.ofNat red, Arithmetic.ofNat green, Arithmetic.ofNat blue,
    Arithmetic.ofNat alpha / 255.0⟩

/-- Read a hexadecimal color. -/
def read {α : Type} [Arithmetic α] (text : List Char) : Except (ColorError α) (Rgba α) :=
  match text with
  | [] => .error .empty
  | c :: cs =>
    if c = '#' then
      match digits cs with
      | .error error => .error error
      | .ok values =>
        match bytes? values with
        | some (red, green, blue, alpha) => .ok (ofBytes red green blue alpha)
        | none => .error (.invalidLength values.length)
    else .error .missingHash

/-- The lower-case digit of a value below 16. -/
def digit (value : Nat) : Char :=
  if value < 10 then Char.ofNat ('0'.toNat + value) else Char.ofNat ('a'.toNat + value - 10)

/-- Two digits of a byte. -/
def byte (value : Nat) : List Char :=
  [digit (value / 16), digit (value % 16)]

/-- Write channel bytes; an opaque color has no alpha digits. -/
def write (red green blue : Nat) (alpha : Option Nat) : List Char :=
  '#' :: (byte red ++ byte green ++ byte blue ++ (alpha.map byte).getD [])

end StyleSense.Hex

import StyleSense.Color.Conversion
import StyleSense.Proofs.Number.Size

/-!
Contract: the hue of a color is a number.

The hue is a quotient of two differences of channels, of which the divisor may be very small. It does
not overflow because the divisor is the greatest of the differences.

Owns:
- `Rgba.InRange`, a color whose channels and alpha are within their ranges;
- `Rgba.exists_hue`: the hue of such a color is finite.

Does not own: which number the hue is.
-/

namespace StyleSense

open Number Number.Binary Arithmetic

/-- Channels from 0 to 255, alpha from 0 to 1. -/
structure Rgba.InRange (color : Rgba Float) : Prop where
  red : 0.0 ≤ color.red ∧ color.red ≤ 255.0
  green : 0.0 ≤ color.green ∧ color.green ≤ 255.0
  blue : 0.0 ≤ color.blue ∧ color.blue ≤ 255.0
  alpha : 0.0 ≤ color.alpha ∧ color.alpha ≤ 1.0

/-! ## Sizes -/

theorem ofFloat?_zero : ofFloat? 0.0 = some ⟨false, 0, -1074⟩ := by
  decide +kernel

theorem ofFloat?_two : ofFloat? 2.0 = some ⟨false, 4503599627370496, -51⟩ := by
  decide +kernel

theorem ofFloat?_four : ofFloat? 4.0 = some ⟨false, 4503599627370496, -50⟩ := by
  decide +kernel

theorem ofFloat?_six : ofFloat? 6.0 = some ⟨false, 6755399441055744, -50⟩ := by
  decide +kernel

theorem ofFloat?_maximum : ofFloat? 255.0 = some ⟨false, 8972014882652160, -45⟩ := by
  decide +kernel

theorem ofFloat?_sixty : ofFloat? 60.0 = some ⟨false, 8444249301319680, -47⟩ := by
  decide +kernel

/-- A channel from 0 to 1. -/
theorem exists_unit
    {x : Float}
    (inRange : 0.0 ≤ x ∧ x ≤ 255.0) :
    ∃ b, ofFloat? (x / 255.0) = some b ∧ b.top ≤ 2 := by
  obtain ⟨a, parts, notBelow, notAbove⟩ :=
    exists_of_between ofFloat?_zero ofFloat?_maximum inRange.1 inRange.2
  have size : a.magnitude < 2 ^ 1082 := by
    have maximum : scaled ⟨false, 8972014882652160, -45⟩ < 2 ^ 1082 := by decide +kernel
    rw [scaled_zero] at notBelow
    rw [← natAbs_scaled]
    omega
  have small := (ofFloat?_fits parts).top_le (by omega) size
  have top255 : top ⟨false, 8972014882652160, -45⟩ = 8 := by decide +kernel
  obtain ⟨b, partsB, bound⟩ := div_parts parts ofFloat?_maximum (by decide) (by omega)
  exact ⟨b, partsB, by omega⟩

/-! ## Differences -/

section Order

variable {x y : Float} {a b : Binary} (partsX : ofFloat? x = some a) (partsY : ofFloat? y = some b)

include partsX

theorem isNaN_eq_false : x.isNaN = false := by
  rw [ofFloat?_eq] at partsX
  change x.toModel.unpack.isNaN = false
  generalize x.toModel.unpack = u at partsX
  cases u with
  | notANumber => cases partsX
  | _ => rfl

include partsY

theorem exists_greater :
    ∃ c, ofFloat? (greater x y) = some c ∧ (c = a ∨ c = b) ∧
      a.scaled ≤ c.scaled ∧ b.scaled ≤ c.scaled := by
  change ∃ c, ofFloat? (if x.isNaN || x < y then y else x) = some c ∧ _
  rw [isNaN_eq_false partsX, Bool.false_or]
  by_cases less : x < y
  · rw [if_pos (decide_eq_true less)]
    have order := (lt_iff partsX partsY).mp less
    exact ⟨b, partsY, .inr rfl, by omega, by omega⟩
  · rw [if_neg (by simpa using less)]
    have order := mt (lt_iff partsX partsY).mpr less
    exact ⟨a, partsX, .inl rfl, by omega, by omega⟩

theorem exists_smaller :
    ∃ c, ofFloat? (smaller x y) = some c ∧ (c = a ∨ c = b) ∧
      c.scaled ≤ a.scaled ∧ c.scaled ≤ b.scaled := by
  change ∃ c, ofFloat? (if x.isNaN || y < x then y else x) = some c ∧ _
  rw [isNaN_eq_false partsX, Bool.false_or]
  by_cases less : y < x
  · rw [if_pos (decide_eq_true less)]
    have order := (lt_iff partsY partsX).mp less
    exact ⟨b, partsY, .inr rfl, by omega, by omega⟩
  · rw [if_neg (by simpa using less)]
    have order := mt (lt_iff partsY partsX).mpr less
    exact ⟨a, partsX, .inl rfl, by omega, by omega⟩

end Order

/-- A difference of channels is at most about as large as one that is not smaller. -/
theorem exists_quotient
    {x y high low : Float}
    {a b h l : Binary}
    (partsX : ofFloat? x = some a)
    (partsY : ofFloat? y = some b)
    (partsHigh : ofFloat? high = some h)
    (partsLow : ofFloat? low = some l)
    (smallX : a.top ≤ 2)
    (smallY : b.top ≤ 2)
    (smallHigh : h.top ≤ 2)
    (smallLow : l.top ≤ 2)
    (within : (a.scaled - b.scaled).natAbs ≤ (h.scaled - l.scaled).natAbs)
    (positive : 0.0 < high - low) :
    ∃ q, ofFloat? ((x - y) / (high - low)) = some q ∧ q.top ≤ 3 := by
  obtain ⟨d, partsD, nearD⟩ := sub_nearly partsX partsY (by omega) (by omega)
  obtain ⟨c, partsC, nearC⟩ := sub_nearly partsHigh partsLow (by omega) (by omega)
  have isPositive := (lt_iff ofFloat?_zero partsC).mp positive
  have differs : h.scaled - l.scaled ≠ 0 := by
    intro same
    have vanishes := nearC.zero same
    obtain ⟨negative, m, e⟩ := c
    simp only at vanishes
    rw [vanishes, scaled_zero, scaled_zero] at isPositive
    exact absurd isPositive (by decide)
  have lower := nearC.notBelow differs
  have notAbove : d.top ≤ c.top + 1 := by
    by_cases same : a.scaled - b.scaled = 0
    · have least : d.top ≤ (0 : Nat) - 1073 := nearD.top_le (by simp [same])
      have := nearC.fits.top_ge
      omega
    · have upper := nearD.notAbove same
      have logs := log2_le_log2 within
      omega
  obtain ⟨q, partsQ, bound⟩ := div_parts partsD partsC (nearC.notZero differs) (by omega)
  exact ⟨q, partsQ, by omega⟩

/-- Sixths of a turn are turned into whole degrees. -/
theorem exists_degrees
    {quotient shift : Float}
    {q s : Binary}
    (partsQ : ofFloat? quotient = some q)
    (partsS : ofFloat? shift = some s)
    (smallQ : q.top ≤ 3)
    (smallS : s.top ≤ 3) :
    ∃ b, ofFloat? (Number.roundAway ((quotient + shift) * 60.0)) = some b := by
  obtain ⟨c, partsC, nearly⟩ := add_nearly partsQ partsS (by omega) (by omega)
  have size : (q.scaled + s.scaled).natAbs < 2 ^ 1078 := by
    have sizeQ : q.magnitude < 2 ^ 1077 := (ofFloat?_fits partsQ).magnitude_lt_two_pow (by omega)
    have sizeS : s.magnitude < 2 ^ 1077 := (ofFloat?_fits partsS).magnitude_lt_two_pow (by omega)
    rw [← natAbs_scaled] at sizeQ sizeS
    omega
  have small := nearly.top_le size
  have topSixty : top ⟨false, 8444249301319680, -47⟩ = 6 := by decide +kernel
  obtain ⟨d, partsD, -⟩ := mul_parts partsC ofFloat?_sixty (by omega)
  exact roundAway_finite partsD

namespace Rgba

/-- The hue of a color is finite. -/
theorem exists_hue
    {color : Rgba Float}
    (inRange : color.InRange) :
    ∃ b, ofFloat? color.toHsla.hue = some b := by
  obtain ⟨r, partsR, smallR⟩ := exists_unit inRange.red
  obtain ⟨g, partsG, smallG⟩ := exists_unit inRange.green
  obtain ⟨b, partsB, smallB⟩ := exists_unit inRange.blue
  obtain ⟨h', partsH', isOneH', aboveR', aboveG'⟩ := exists_greater partsR partsG
  obtain ⟨h, partsH, isOneH, aboveH', aboveB⟩ := exists_greater partsH' partsB
  obtain ⟨l', partsL', isOneL', belowR', belowG'⟩ := exists_smaller partsR partsG
  obtain ⟨l, partsL, isOneL, belowL', belowB⟩ := exists_smaller partsL' partsB
  have smallH : h.top ≤ 2 := by
    rcases isOneH with rfl | rfl
    · rcases isOneH' with rfl | rfl <;> assumption
    · assumption
  have smallL : l.top ≤ 2 := by
    rcases isOneL with rfl | rfl
    · rcases isOneL' with rfl | rfl <;> assumption
    · assumption
  have quotient : ∀ {x y : Float} {c d : Binary}, ofFloat? x = some c → ofFloat? y = some d →
      c.top ≤ 2 → d.top ≤ 2 → (c.scaled - d.scaled).natAbs ≤ (h.scaled - l.scaled).natAbs →
      0.0 < color.toUnit.highest - color.toUnit.lowest →
      ∃ q, ofFloat? ((x - y) / (color.toUnit.highest - color.toUnit.lowest)) = some q ∧ q.top ≤ 3 :=
    fun partsX partsY smallX smallY within positive =>
      exists_quotient partsX partsY partsH partsL smallX smallY smallH smallL within positive
  unfold toHsla
  simp only
  split
  · rename_i positive
    have isPositive : 0.0 < color.toUnit.highest - color.toUnit.lowest := of_decide_eq_true positive
    split
    · obtain ⟨q, partsQ, smallQ⟩ := quotient partsG partsB smallG smallB (by omega) isPositive
      split
      · exact exists_degrees partsQ ofFloat?_six smallQ (by decide +kernel)
      · exact exists_degrees partsQ ofFloat?_zero smallQ (by decide +kernel)
    · split
      · obtain ⟨q, partsQ, smallQ⟩ := quotient partsB partsR smallB smallR (by omega) isPositive
        exact exists_degrees partsQ ofFloat?_two smallQ (by decide +kernel)
      · obtain ⟨q, partsQ, smallQ⟩ := quotient partsR partsG smallR smallG (by omega) isPositive
        exact exists_degrees partsQ ofFloat?_four smallQ (by decide +kernel)
  · exact ⟨_, ofFloat?_zero⟩

end Rgba

end StyleSense

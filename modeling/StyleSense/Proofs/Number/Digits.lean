import StyleSense.Number.Decimal
import StyleSense.Proofs.Number.Size
import StyleSense.Proofs.Token.Numeral

/-!
Contract: decimal texts as numerals.

Owns:
- `Decimal.plainText_isNumeral`: digits without an exponent are a numeral, and `exists_plain`: so is
  the text of a finite number after its sign;
- `numeralValue?_digits`: the digits of a whole number below `2 ^ 53` denote it without rounding;
- `fixed2_of_between`: two places of a number from 0 to 1 are those of at most 100 hundredths, and
  only a zero has a sign.

Does not own: what the digits of a fraction denote.
-/

namespace StyleSense.Number

open Binary

namespace Decimal

theorem digits_ne_nil (n : Nat) : digits n ≠ [] :=
  Nat.toDigits_ne_nil

theorem isDigit_of_mem_digits
    {n : Nat}
    {c : Char}
    (isIn : c ∈ digits n) :
    c.isDigit = true :=
  Nat.isDigit_of_mem_toDigits (by decide) (by decide) isIn

theorem digits_isNumeral (n : Nat) : IsNumeral (digits n) :=
  .whole (digits_ne_nil n) fun _ => isDigit_of_mem_digits

theorem toList_toString (n : Nat) : (toString n).toList = digits n :=
  Nat.toList_repr

theorem isDigit_of_mem_zeros
    {count : Nat}
    {c : Char}
    (isIn : c ∈ List.replicate count '0') :
    c.isDigit = true := by
  obtain rfl := (List.mem_replicate.mp isIn).2
  decide

/-- Digits without an exponent are a numeral. -/
theorem plainText_isNumeral (d : Decimal) : IsNumeral (plainText d) := by
  have digit := fun c => @isDigit_of_mem_digits d.significand c
  unfold plainText
  by_cases isWhole : 0 ≤ d.exponent
  · rw [if_pos isWhole]
    refine .whole (by simp [digits_ne_nil]) fun c isIn => ?_
    exact (List.mem_append.mp isIn).elim (digit c) isDigit_of_mem_zeros
  · rw [if_neg isWhole]
    have positive : 0 < (-d.exponent).toNat := by omega
    by_cases inside : (-d.exponent).toNat < (digits d.significand).length
    · rw [if_pos inside]
      refine .fraction ?_ (fun c isIn => digit c (List.mem_of_mem_take isIn)) ?_
        (fun c isIn => digit c (List.mem_of_mem_drop isIn))
      · rw [ne_eq, List.take_eq_nil_iff]
        exact not_or.mpr ⟨by omega, digits_ne_nil _⟩
      · rw [ne_eq, List.drop_eq_nil_iff]
        omega
    · rw [if_neg inside]
      refine @IsNumeral.fraction ['0'] _ (by simp) (by decide) (by simp [digits_ne_nil])
        fun c isIn => ?_
      exact (List.mem_append.mp isIn).elim isDigit_of_mem_zeros (digit c)

end Decimal

/-- The text of a finite number is a numeral after its sign. -/
theorem exists_plain
    {x : Float}
    {b : Binary}
    (parts : ofFloat? x = some b) :
    ∃ number : WrittenNumber, (plain x).toList = number.text ∧ number.percent = false := by
  have numeral : IsNumeral (if b.significand = 0 then ['0']
      else Decimal.plainText (Decimal.shortest b.significand b.exponent)) := by
    split
    · exact isNumeral_sound (by decide)
    · exact Decimal.plainText_isNumeral _
  refine ⟨⟨b.negative, _, false, numeral⟩, ?_, rfl⟩
  unfold plain numberText WrittenNumber.text
  simp only [parts]
  cases b.negative <;> split <;> simp

/-! ## Whole numbers -/

theorem halfEven_le
    {dividend divisor bound : Nat}
    (positive : 0 < divisor)
    (within : dividend ≤ bound * divisor) :
    halfEven dividend divisor ≤ bound := by
  have whole := Nat.div_add_mod dividend divisor
  have quotient : dividend / divisor ≤ bound := Nat.div_le_of_le_mul (Nat.mul_comm .. ▸ within)
  have even : dividend / divisor % 2 ≤ 1 := by omega
  unfold halfEven
  by_cases isBound : dividend / divisor = bound
  · -- nothing is left to round up
    have noRest : dividend % divisor = 0 := by
      rw [isBound, Nat.mul_comm] at whole
      omega
    rw [if_pos (by omega)]
    exact quotient
  · simp only
    split
    · exact quotient
    · split <;> omega

theorem halfEven_mul
    (quotient : Nat)
    {divisor : Nat}
    (positive : 0 < divisor) :
    halfEven (quotient * divisor) divisor = quotient := by
  unfold halfEven
  rw [Nat.mul_div_cancel _ positive, Nat.mul_mod_left, if_pos (by omega)]

/-- A normal number is rounded to 53 binary digits. -/
theorem round_normal
    {m : Nat}
    {e : Int}
    (positive : 0 < m)
    (normal : -1022 ≤ m.log2 + e)
    (negative : Bool) :
    round .double ⟨negative, m, e⟩ =
      if m.log2 ≤ 52 then ⟨negative, m <<< (52 - m.log2), m.log2 + e - 52⟩
      else ⟨negative, halfEven m (2 ^ (m.log2 - 52)), m.log2 + e - 52⟩ := by
  have last : max (-1074) (e + (bitLength m : Int) - 53) = m.log2 + e - 52 := by
    rw [bitLength, if_neg (Nat.ne_of_gt positive)]
    omega
  have up : (e - (m.log2 + e - 52)).toNat = 52 - m.log2 := by omega
  have down : ((m.log2 : Int) + e - 52 - e).toNat = m.log2 - 52 := by omega
  unfold Binary.round Format.double
  simp only [Nat.cast_ofNat, last, up, down, Nat.pow_eq]
  by_cases short : m.log2 ≤ 52
  · rw [if_pos short, if_pos (by omega)]
  · rw [if_neg short, if_neg (by omega)]

/-- Places that are all zero do not change what a number is rounded to. -/
theorem round_shiftLeft
    {n count : Nat}
    (positive : 0 < n)
    (small : n.log2 ≤ 52)
    (long : 52 < count)
    (negative : Bool) :
    round .double ⟨negative, n <<< count, -count⟩ = round .double ⟨negative, n, 0⟩ := by
  have log := log2_shiftLeft positive count
  have positive' : 0 < n <<< count := Nat.shiftLeft_pos_iff.mpr positive
  have exactly : n <<< count = n <<< (52 - n.log2) * 2 ^ (n.log2 + count - 52) := by
    rw [← Nat.shiftLeft_eq, ← Nat.shiftLeft_add]
    congr 1
    omega
  rw [round_normal positive' (by omega), round_normal positive (by omega), log,
    if_neg (by omega), if_pos small, exactly, halfEven_mul _ (Nat.two_pow_pos _)]
  congr 1
  omega

theorem nearest_whole
    {n : Nat}
    (small : n < 2 ^ 53) :
    Decimal.nearest false ⟨n, 0⟩ = toFloat ⟨false, n, 0⟩ := by
  by_cases isZero : n = 0
  · rw [isZero, Decimal.nearest, if_pos rfl]
  · have positive : 0 < n := by omega
    have log : n.log2 ≤ 52 := Nat.lt_succ_iff.mp ((Nat.log2_lt isZero).mpr small)
    have fraction : Decimal.Fraction.ofPower n 10 0 = ⟨n, 1⟩ := by simp [Decimal.Fraction.ofPower]
    unfold Decimal.nearest
    simp only [if_neg isZero, fraction, Nat.div_one, Nat.mod_one, if_true]
    generalize more : bitLength 1 + 1200 = count
    have shifted : 2 * n <<< count + 0 = n <<< (count + 1) := (Nat.shiftLeft_succ ..).symm
    have exponent : -(count : Int) - 1 = -((count + 1 : Nat) : Int) := by omega
    have notZero : n <<< (count + 1) ≠ 0 := Nat.ne_of_gt (Nat.shiftLeft_pos_iff.mpr positive)
    rw [shifted, exponent, toFloat, toFloat, if_neg notZero, if_neg isZero,
      round_shiftLeft positive log (by omega)]

/-- The digits of a whole number denote it. -/
theorem numeralValue?_digits
    {n : Nat}
    (small : n < 2 ^ 53) :
    Token.numeralValue? (Decimal.digits n) = some (toFloat ⟨false, n, 0⟩) := by
  have all : ∀ c ∈ Decimal.digits n, c.isDigit = true := fun c => Decimal.isDigit_of_mem_digits
  have value : (Decimal.digits n).foldl (fun n d => n * 10 + (d.toNat - '0'.toNat)) 0 = n := by
    have denotes := Nat.ofDigitChars_toDigits (b := 10) (n := n) (by decide) (by decide)
    simp only [Nat.ofDigitChars, Nat.mul_comm 10] at denotes
    exact denotes
  unfold Token.numeralValue?
  simp only [List.dropWhile_eq_nil_iff.mpr all, List.takeWhile_eq_self_iff.mpr all, value,
    nearest_whole small]

/-! ## Two places -/

/-- Two places of a number of hundredths. -/
def hundredthsText (hundredths : Nat) : List Char :=
  let places := Decimal.digits (hundredths % 100)
  Decimal.digits (hundredths / 100) ++ '.' ::
    (List.replicate (2 - places.length) '0' ++ places)

theorem ofFloat?_one : ofFloat? 1.0 = some ⟨false, 4503599627370496, -52⟩ := by
  decide +kernel

theorem scaled_one : scaled ⟨false, 4503599627370496, -52⟩ = (2 ^ 1074 : Nat) := by
  decide +kernel

section AtMostOne

variable {b : Binary} {unit : Nat} (isUnit : unit = 1074) (notAbove : b.magnitude ≤ 2 ^ unit)

include isUnit notAbove

theorem mul_le_one_of_magnitude
    (isWhole : 0 ≤ b.exponent) :
    b.significand * 2 ^ b.exponent.toNat ≤ 1 := by
  have split : (b.exponent + 1074).toNat = b.exponent.toNat + unit := by omega
  rw [Binary.magnitude, split, Nat.pow_add, ← Nat.mul_assoc] at notAbove
  exact Nat.le_of_mul_le_mul_right (by rwa [Nat.one_mul]) (Nat.two_pow_pos unit)

theorem significand_le_of_magnitude
    (notWhole : b.exponent < 0)
    (least : -1074 ≤ b.exponent) :
    b.significand ≤ 2 ^ (-b.exponent).toNat := by
  have split : unit = (-b.exponent).toNat + (b.exponent + 1074).toNat := by omega
  rw [Binary.magnitude, split, Nat.pow_add] at notAbove
  exact Nat.le_of_mul_le_mul_right notAbove (Nat.two_pow_pos _)

end AtMostOne

/-- Two places of a number from 0 to 1. Only a zero can have a sign. -/
theorem fixed2_of_between
    {x : Float}
    {b : Binary}
    (parts : ofFloat? x = some b)
    (notNegative : 0 ≤ b.scaled)
    (notAbove : b.scaled ≤ (2 ^ 1074 : Nat)) :
    (∃ hundredths ≤ 100, (fixed2 x).toList = hundredthsText hundredths) ∨
      (fixed2 x).toList = '-' :: hundredthsText 0 := by
  have size : b.magnitude ≤ 2 ^ 1074 := by
    rw [← natAbs_scaled, ← Int.ofNat_le]
    exact (Int.natAbs_of_nonneg notNegative).trans_le notAbove
  let hundredths :=
    if 0 ≤ b.exponent then b.significand * Nat.pow 2 b.exponent.toNat * 100
    else halfEven (b.significand * 100) (Nat.pow 2 (-b.exponent).toNat)
  have text : (fixed2 x).toList =
      (if b.negative then "-" else "").toList ++ hundredthsText hundredths := by
    unfold fixed2 hundredthsText
    simp only [parts, String.toList_append, String.toList_ofList]
    rfl
  cases sign : b.negative with
  | true =>
    have isZero : b.significand = 0 := by
      by_contra notZero
      have positive := @magnitude_pos b (by omega)
      have negated : b.scaled = -(b.magnitude : Int) := by rw [scaled, sign, if_pos rfl]
      omega
    have none : hundredths = 0 := by
      simp [hundredths, isZero, halfEven]
    rw [sign, none] at text
    exact .inr text
  | false =>
    rw [sign] at text
    refine .inl ⟨hundredths, ?_, text⟩
    by_cases isWhole : 0 ≤ b.exponent
    · have least := mul_le_one_of_magnitude rfl size isWhole
      simp only [hundredths, if_pos isWhole, Nat.pow_eq]
      omega
    · have least := significand_le_of_magnitude rfl size (by omega) (ofFloat?_fits parts).least
      simp only [hundredths, if_neg isWhole, Nat.pow_eq]
      exact halfEven_le (Nat.two_pow_pos _) (by omega)

end StyleSense.Number

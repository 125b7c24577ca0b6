import Mathlib
import StyleSense.Number.Binary

/-!
Contract: the exact parts of a floating point number.

Owns:
- `Binary.ofUnpacked?`, by which the parts that are cut out of the bits of a number are those of its
  unpacked form (`Binary.ofFloat?_eq`);
- `Binary.Fits`, the significands and exponents that double precision has, and that packing a number
  with such parts keeps them;
- `Binary.scaled`, the value of a number in units of the least positive one, and the order of
  numbers as the order of these values.

Does not own: rounding (`StyleSense.Proofs.Number.Size`).
-/

namespace StyleSense.Number

open Float.Model Float.Model.UnpackedFloat

namespace Binary

/-- Whether a sign is negative. -/
def isNegative : Sign → Bool
  | .negative => true
  | .positive => false

/-- The parts of an unpacked number that is finite. -/
def ofUnpacked? : UnpackedFloat → Option Binary
  | .zero sign => some ⟨isNegative sign, 0, -1074⟩
  | .finite sign significand exponent _ => some ⟨isNegative sign, significand, exponent⟩
  | .infinity _ => none
  | .notANumber => none

/-! ## Bits -/

section Bits

variable (bits : BitVec 64)

theorem toNat_unpackMantissa :
    (@unpackMantissa .binary64 bits).toNat = bits.toNat % 2 ^ 52 := by
  simp [unpackMantissa, BitVec.extractLsb]

theorem toNat_unpackExponent :
    (@unpackExponent .binary64 bits).toNat = bits.toNat / 2 ^ 52 % 2048 := by
  simp [unpackExponent, BitVec.extractLsb, Nat.shiftRight_eq_div_pow]

theorem isNegative_unpackSign :
    isNegative (Sign.ofBitVec (@unpackSign .binary64 bits)) = decide (2 ^ 63 ≤ bits.toNat) := by
  have bound := bits.isLt
  have toNat : (@unpackSign .binary64 bits).toNat = bits.toNat / 2 ^ 63 := by
    simp only [unpackSign, BitVec.extractLsb, BitVec.toNat_cast, BitVec.extractLsb'_toNat,
      Nat.shiftRight_eq_div_pow]
    omega
  unfold Sign.ofBitVec
  split
  · rename_i isZero
    have low : bits.toNat / 2 ^ 63 = 0 := toNat ▸ congrArg BitVec.toNat isZero
    rw [isNegative, eq_comm, decide_eq_false_iff_not]
    omega
  · rename_i notZero
    have differs : (@unpackSign .binary64 bits).toNat ≠ 0 := fun isZero =>
      notZero (BitVec.eq_of_toNat_eq isZero)
    rw [isNegative, eq_comm, decide_eq_true_eq]
    omega

/-- The implicit first digit of a significand. -/
theorem toNat_implicit (fraction : BitVec 52) :
    (1#1 ++ fraction).toNat = 2 ^ 52 + fraction.toNat := by
  rw [BitVec.toNat_append, ← Nat.shiftLeft_add_eq_or_of_lt fraction.isLt]
  rfl

end Bits

/-- The parts that a word of bits stands for, if they are those of a finite number. -/
def ofWord? (bits : Nat) : Option Binary :=
  let negative := decide (Nat.pow 2 63 ≤ bits)
  let field : Nat := bits / Nat.pow 2 52 % 2048
  let fraction : Nat := bits % Nat.pow 2 52
  if field = 2047 then none
  else if field = 0 then some ⟨negative, fraction, -1074⟩
  else some ⟨negative, Nat.pow 2 52 + fraction, (field : Int) - 1075⟩

theorem ofWord?_toNat (bits : BitVec 64) :
    ofWord? bits.toNat = ofUnpacked? (UnpackedFloat.unpack .binary64 bits) := by
  have field := toNat_unpackExponent bits
  have fraction := toNat_unpackMantissa bits
  have sign := isNegative_unpackSign bits
  have isField : ∀ n : BitVec 11, @unpackExponent .binary64 bits = n ↔
      bits.toNat / 2 ^ 52 % 2048 = n.toNat := by
    intro n
    rw [← field]
    exact ⟨congrArg _, BitVec.eq_of_toNat_eq⟩
  have isFraction : @unpackMantissa .binary64 bits = 0#52 ↔ bits.toNat % 2 ^ 52 = 0 := by
    rw [← fraction]
    exact ⟨congrArg _, fun isZero => BitVec.eq_of_toNat_eq isZero⟩
  have infinite := isField (-1#11)
  have least := isField 0#11
  simp only [show (-1#11).toNat = 2047 from rfl, show (0#11).toNat = 0 from rfl] at infinite least
  unfold UnpackedFloat.unpack
  simp only [ofWord?, Nat.pow_eq, infinite, least, isFraction]
  split
  · split <;> rfl
  · split
    · rename_i isLeast
      split
      · rename_i isZero
        rw [ofUnpacked?, sign, isZero]
      · rw [ofUnpacked?, sign, fraction, field, isLeast]
        rfl
    · rw [ofUnpacked?, sign, toNat_implicit, fraction, field]
      rfl

/-- The parts that are cut out of the bits of a number are those of its unpacked form. -/
theorem ofFloat?_eq (x : Float) :
    ofFloat? x = ofUnpacked? x.toModel.unpack :=
  ofWord?_toNat x.toBits.toBitVec

/-! ## Packing -/

/-- Parts that double precision has: the significand has 53 digits, or fewer at the least exponent. -/
structure Fits (b : Binary) : Prop where
  small : b.significand < 2 ^ 53
  least : -1074 ≤ b.exponent
  filled : 2 ^ 52 ≤ b.significand ∨ b.exponent = -1074

theorem ofWord?_fits
    {bits : Nat}
    {b : Binary}
    (parts : ofWord? bits = some b) :
    b.Fits ∧ b.exponent ≤ 971 := by
  unfold ofWord? at parts
  simp only [Nat.pow_eq] at parts
  have fraction := Nat.mod_lt bits (Nat.two_pow_pos 52)
  split at parts
  · cases parts
  · split at parts
    · cases parts
      exact ⟨⟨by simp only; omega, by simp only; omega, .inr rfl⟩, by simp only; omega⟩
    · cases parts
      exact ⟨⟨by simp only; omega, by simp only; omega, .inl (Nat.le_add_right _ _)⟩,
        by simp only; omega⟩

theorem ofFloat?_fits
    {x : Float}
    {b : Binary}
    (parts : ofFloat? x = some b) :
    b.Fits :=
  (ofWord?_fits parts).1

theorem unpack_pack_finite
    (sign : Sign)
    {significand : Nat}
    {exponent : Int}
    (positive : 0 < significand)
    (fits : Fits ⟨isNegative sign, significand, exponent⟩)
    (notLarge : exponent ≤ 971) :
    UnpackedFloat.unpack .binary64
        (UnpackedFloat.pack .binary64 (.finite sign significand exponent positive)) =
      .finite sign significand exponent positive := by
  obtain ⟨small, least, filled⟩ := fits
  simp only at small least filled
  have bias : ((Float.Model.Format.binary64.exponentBias : Nat) : Int) = 1023 := rfl
  let field := (exponent + 1023 + 52).toNat
  have inRange : ¬2 ^ 11 ≤ field + 1 := by omega
  have fieldEq : (BitVec.ofNat 11 field).toNat = field := by
    rw [BitVec.toNat_ofNat, Nat.mod_eq_of_lt (by omega)]
  have notInfinite : BitVec.ofNat 11 field ≠ -1#11 := by
    intro same
    have := congrArg BitVec.toNat same
    rw [fieldEq, show (-1#11).toNat = 2047 from rfl] at this
    omega
  have notLeast : BitVec.ofNat 11 field ≠ 0#11 := by
    intro same
    have := congrArg BitVec.toNat same
    rw [fieldEq, show (0#11).toNat = 0 from rfl] at this
    omega
  have digits := (Nat.log2_lt (Nat.ne_of_gt positive)).mpr small
  simp only [UnpackedFloat.pack, bias]
  change UnpackedFloat.unpack .binary64 (if 2 ^ 11 ≤ field + 1 then _
    else if significand.log2 + 1 = 53 then _ else _) = _
  rw [if_neg inRange]
  by_cases normal : 2 ^ 52 ≤ significand
  · have log : significand.log2 + 1 = 53 := by
      have := (Nat.le_log2 (Nat.ne_of_gt positive)).mpr normal
      omega
    have whole : (1#1 ++ BitVec.ofNat 52 significand).toNat = significand := by
      rw [toNat_implicit, BitVec.toNat_ofNat]
      omega
    rw [if_pos log]
    unfold UnpackedFloat.unpack
    simp only [unpackMantissa_packComponents, unpackExponent_packComponents,
      unpackSign_packComponents, Sign.ofBitVec_toBitVec]
    change (if BitVec.ofNat 11 field = -1#11 then _ else if BitVec.ofNat 11 field = 0#11 then _
      else UnpackedFloat.finite sign (1#1 ++ BitVec.ofNat 52 significand).toNat
        (((BitVec.ofNat 11 field).toNat : Int) - (1023 + 52)) _) = _
    rw [if_neg notInfinite, if_neg notLeast]
    simp only [whole, fieldEq, UnpackedFloat.finite.injEq, true_and]
    omega
  · obtain rfl := filled.resolve_left normal
    have log : ¬significand.log2 + 1 = 53 := by
      have := (Nat.log2_lt (Nat.ne_of_gt positive)).mpr (Nat.not_le.mp normal)
      omega
    have whole : (BitVec.ofNat 52 significand).toNat = significand := by
      rw [BitVec.toNat_ofNat, Nat.mod_eq_of_lt (Nat.not_le.mp normal)]
    have notZero : BitVec.ofNat 52 significand ≠ 0#52 := by
      intro same
      have := congrArg BitVec.toNat same
      rw [whole, show (0#52).toNat = 0 from rfl] at this
      omega
    rw [if_neg log]
    unfold UnpackedFloat.unpack
    simp only [unpackMantissa_packComponents, unpackExponent_packComponents,
      unpackSign_packComponents, Sign.ofBitVec_toBitVec]
    rw [if_neg (by decide), if_pos trivial, dif_neg notZero]
    simp [whole, bias]

/-- Packing keeps the parts of a number that fits. -/
theorem ofFloat?_pack
    {u : UnpackedFloat}
    {b : Binary}
    (parts : ofUnpacked? u = some b)
    (fits : b.Fits)
    (notLarge : b.exponent ≤ 971) :
    ofFloat? (.ofModel (.pack u)) = some b := by
  rw [ofFloat?_eq]
  change ofUnpacked? (UnpackedFloat.unpack .binary64 (UnpackedFloat.pack .binary64 u)) = some b
  cases u with
  | infinity sign => cases parts
  | notANumber => cases parts
  | zero sign =>
    rw [← parts]
    cases sign <;> rfl
  | finite sign significand exponent positive =>
    cases parts
    rw [unpack_pack_finite sign positive fits notLarge]
    rfl

/-- The number with given bits has the parts that they stand for. -/
theorem ofFloat?_ofBits
    {word : UInt64}
    {b : Binary}
    (parts : ofWord? word.toNat = some b) :
    ofFloat? (.ofBits word) = some b := by
  obtain ⟨fits, notLarge⟩ := ofWord?_fits parts
  exact ofFloat?_pack (ofWord?_toNat word.toBitVec ▸ parts) fits notLarge

/-! ## Order -/

/-- The magnitude of a number in units of the least positive one. -/
def magnitude (b : Binary) : Nat :=
  b.significand * 2 ^ (b.exponent + 1074).toNat

/-- The value of a number in units of the least positive one. -/
def scaled (b : Binary) : Int :=
  if b.negative then -(b.magnitude : Int) else b.magnitude

/-- Of numbers that fit, one with a smaller exponent is smaller. -/
theorem Fits.magnitude_lt
    {a b : Binary}
    (fitsA : a.Fits)
    (fitsB : b.Fits)
    (earlier : a.exponent < b.exponent) :
    a.magnitude < b.magnitude := by
  have least := fitsA.least
  have normal : 2 ^ 52 ≤ b.significand := fitsB.filled.resolve_right (by omega)
  obtain ⟨more, gap⟩ : ∃ more, (b.exponent + 1074).toNat = (a.exponent + 1074).toNat + 1 + more :=
    ⟨(b.exponent - a.exponent - 1).toNat, by omega⟩
  calc a.magnitude < 2 ^ 53 * 2 ^ (a.exponent + 1074).toNat :=
        Nat.mul_lt_mul_of_pos_right fitsA.small (Nat.two_pow_pos _)
    _ = 2 ^ 52 * 2 ^ ((a.exponent + 1074).toNat + 1) := by
        rw [Nat.pow_succ 2 (a.exponent + 1074).toNat, Nat.pow_succ 2 52]
        omega
    _ ≤ 2 ^ 52 * 2 ^ (b.exponent + 1074).toNat :=
        Nat.mul_le_mul_left _ (Nat.pow_le_pow_right (by omega) (by omega))
    _ ≤ b.magnitude := Nat.mul_le_mul_right _ normal

/-- Exponents and significands are compared in this order. -/
theorem Fits.compare_magnitude
    {a b : Binary}
    (fitsA : a.Fits)
    (fitsB : b.Fits) :
    (compare a.exponent b.exponent).then (compare a.significand b.significand) =
      compare a.magnitude b.magnitude := by
  rcases Int.lt_trichotomy a.exponent b.exponent with less | same | greater
  · rw [Int.compare_eq_lt.mpr less, Nat.compare_eq_lt.mpr (fitsA.magnitude_lt fitsB less)]
    rfl
  · rw [Int.compare_eq_eq.mpr same, magnitude, magnitude, same]
    have positive := Nat.two_pow_pos (b.exponent + 1074).toNat
    rcases Nat.lt_trichotomy a.significand b.significand with less | same | greater
    · rw [Nat.compare_eq_lt.mpr less,
        Nat.compare_eq_lt.mpr (Nat.mul_lt_mul_of_pos_right less positive)]
      rfl
    · rw [same, Nat.compare_eq_eq.mpr rfl, Nat.compare_eq_eq.mpr rfl]
      rfl
    · rw [Nat.compare_eq_gt.mpr greater,
        Nat.compare_eq_gt.mpr (Nat.mul_lt_mul_of_pos_right greater positive)]
      rfl
  · rw [Int.compare_eq_gt.mpr greater, Nat.compare_eq_gt.mpr (fitsB.magnitude_lt fitsA greater)]
    rfl

theorem magnitude_pos
    {b : Binary}
    (notZero : 0 < b.significand) :
    0 < b.magnitude :=
  Nat.mul_pos notZero (Nat.two_pow_pos _)

theorem scaled_zero
    (negative : Bool)
    (exponent : Int) :
    scaled ⟨negative, 0, exponent⟩ = 0 := by
  simp [scaled, magnitude]

theorem scaled_negative
    (significand : Nat)
    (exponent : Int) :
    scaled ⟨isNegative .negative, significand, exponent⟩ =
      -(magnitude ⟨isNegative .positive, significand, exponent⟩ : Int) :=
  rfl

theorem scaled_positive
    (significand : Nat)
    (exponent : Int) :
    scaled ⟨isNegative .positive, significand, exponent⟩ =
      (magnitude ⟨isNegative .positive, significand, exponent⟩ : Int) :=
  rfl

theorem compare_natCast (left right : Nat) :
    compare (left : Int) (right : Int) = compare left right := by
  rcases Nat.lt_trichotomy left right with less | rfl | greater
  · rw [Nat.compare_eq_lt.mpr less, Int.compare_eq_lt.mpr (by omega)]
  · rw [Nat.compare_eq_eq.mpr rfl, Int.compare_eq_eq.mpr rfl]
  · rw [Nat.compare_eq_gt.mpr greater, Int.compare_eq_gt.mpr (by omega)]

theorem compare_neg_natCast (left right : Nat) :
    compare (-(left : Int)) (-(right : Int)) = (compare left right).swap := by
  rcases Nat.lt_trichotomy left right with less | rfl | greater
  · rw [Nat.compare_eq_lt.mpr less, Int.compare_eq_gt.mpr (by omega)]
    rfl
  · rw [Nat.compare_eq_eq.mpr rfl, Int.compare_eq_eq.mpr rfl]
    rfl
  · rw [Nat.compare_eq_gt.mpr greater, Int.compare_eq_lt.mpr (by omega)]
    rfl

/-- Numbers are compared by their values. -/
theorem compare_unpacked
    {u v : UnpackedFloat}
    {a b : Binary}
    (partsU : ofUnpacked? u = some a)
    (partsV : ofUnpacked? v = some b)
    (fitsA : a.Fits)
    (fitsB : b.Fits) :
    u.compare v = some (compare a.scaled b.scaled) := by
  cases u with
  | infinity sign => cases partsU
  | notANumber => cases partsU
  | zero sign =>
    cases partsU
    cases v with
    | infinity sign => cases partsV
    | notANumber => cases partsV
    | zero sign =>
      cases partsV
      rw [scaled_zero, scaled_zero]
      rfl
    | finite sign significand exponent positive =>
      cases partsV
      have isPositive := @magnitude_pos ⟨isNegative .positive, significand, exponent⟩ positive
      rw [scaled_zero]
      cases sign with
      | negative =>
        rw [scaled_negative, Int.compare_eq_gt.mpr (by omega)]
        rfl
      | positive =>
        rw [scaled_positive, Int.compare_eq_lt.mpr (by omega)]
        rfl
  | finite sign significand exponent positive =>
    cases partsU
    have isPositive := @magnitude_pos ⟨isNegative .positive, significand, exponent⟩ positive
    cases v with
    | infinity sign => cases partsV
    | notANumber => cases partsV
    | zero sign' =>
      cases partsV
      rw [scaled_zero]
      cases sign with
      | negative =>
        rw [scaled_negative, Int.compare_eq_lt.mpr (by omega)]
        rfl
      | positive =>
        rw [scaled_positive, Int.compare_eq_gt.mpr (by omega)]
        rfl
    | finite sign' significand' exponent' positive' =>
      cases partsV
      have isPositive' := @magnitude_pos ⟨isNegative .positive, significand', exponent'⟩ positive'
      have order := (Fits.mk fitsA.small fitsA.least fitsA.filled :
        Fits ⟨isNegative .positive, significand, exponent⟩).compare_magnitude
          (Fits.mk fitsB.small fitsB.least fitsB.filled :
            Fits ⟨isNegative .positive, significand', exponent'⟩)
      cases sign with
      | negative =>
        cases sign' with
        | negative =>
          rw [scaled_negative, scaled_negative, compare_neg_natCast, ← order]
          rfl
        | positive =>
          rw [scaled_negative, scaled_positive, Int.compare_eq_lt.mpr (by omega)]
          rfl
      | positive =>
        cases sign' with
        | negative =>
          rw [scaled_positive, scaled_negative, Int.compare_eq_gt.mpr (by omega)]
          rfl
        | positive =>
          rw [scaled_positive, scaled_positive, compare_natCast, ← order]
          rfl

section Comparison

variable {x y : Float} {a b : Binary}

theorem lt_iff
    (partsX : ofFloat? x = some a)
    (partsY : ofFloat? y = some b) :
    x < y ↔ a.scaled < b.scaled := by
  have compared := compare_unpacked (ofFloat?_eq x ▸ partsX) (ofFloat?_eq y ▸ partsY)
    (ofFloat?_fits partsX) (ofFloat?_fits partsY)
  change decide (UnpackedFloat.lt x.toModel.unpack y.toModel.unpack = true) = true ↔ _
  rw [decide_eq_true_eq, UnpackedFloat.lt, compared, beq_iff_eq, Option.some_inj,
    Int.compare_eq_lt]

theorem le_iff
    (partsX : ofFloat? x = some a)
    (partsY : ofFloat? y = some b) :
    x ≤ y ↔ a.scaled ≤ b.scaled := by
  have compared := compare_unpacked (ofFloat?_eq x ▸ partsX) (ofFloat?_eq y ▸ partsY)
    (ofFloat?_fits partsX) (ofFloat?_fits partsY)
  change decide (UnpackedFloat.le x.toModel.unpack y.toModel.unpack = true) = true ↔ _
  rw [decide_eq_true_eq, UnpackedFloat.le, compared, Option.any_some, Int.isLE_compare]

end Comparison

/-- A number between two finite ones is finite. -/
theorem exists_of_between
    {low x high : Float}
    {a c : Binary}
    (partsLow : ofFloat? low = some a)
    (partsHigh : ofFloat? high = some c)
    (notBelow : low ≤ x)
    (notAbove : x ≤ high) :
    ∃ b, ofFloat? x = some b ∧ a.scaled ≤ b.scaled ∧ b.scaled ≤ c.scaled := by
  cases partsX : ofFloat? x with
  | some b => exact ⟨b, rfl, (le_iff partsLow partsX).mp notBelow, (le_iff partsX partsHigh).mp notAbove⟩
  | none =>
    exfalso
    change decide (UnpackedFloat.le low.toModel.unpack x.toModel.unpack = true) = true at notBelow
    change decide (UnpackedFloat.le x.toModel.unpack high.toModel.unpack = true) = true at notAbove
    rw [ofFloat?_eq] at partsLow partsHigh partsX
    rw [decide_eq_true_eq] at notBelow notAbove
    generalize low.toModel.unpack = u at *
    generalize high.toModel.unpack = w at *
    generalize x.toModel.unpack = v at *
    cases v with
    | zero sign => cases partsX
    | finite sign significand exponent positive => cases partsX
    | notANumber => cases w <;> cases notAbove
    | infinity sign =>
      cases sign with
      | positive => cases w <;> first | cases notAbove | cases partsHigh
      | negative => cases u <;> first | cases notBelow | cases partsLow

end Binary

end StyleSense.Number

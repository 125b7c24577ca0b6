import StyleSense.Proofs.Number.Parts

/-!
Contract: the size of what floating point arithmetic gives.

Owns:
- `Binary.top`, the place of the first digit of a number, and how far rounding can move it;
- for each operation, that it gives a finite number on finite ones that are not too large, and where
  the first digit of the result is.

Does not own: the error of the operations.
-/

namespace StyleSense.Number

open Float.Model Float.Model.UnpackedFloat

namespace Binary

/-- The place of the first digit: the magnitude is less than two to this power. That of zero is the
place of the last digit of the least exponent. -/
def top (b : Binary) : Int :=
  totalExponent b.significand b.exponent

/-! ## Rounding -/

theorem targetExponent_eq (top : Int) :
    Float.Model.Format.binary64.targetExponent top = max (top - 53) (-1074) :=
  rfl

theorem mantissa_shiftRight
    (em : ExtendedMantissa)
    (count : Nat) :
    (em >>> count).mantissa = em.mantissa / 2 ^ count := by
  induction count with
  | zero => exact (Nat.div_one _).symm
  | succ count inductionHypothesis =>
    change (ExtendedMantissa.shiftRightOne (em >>> count)).mantissa = _
    rw [ExtendedMantissa.shiftRightOne, inductionHypothesis, Nat.div_div_eq_div_mul, Nat.pow_succ]

theorem mantissa_ofMantissaAndAccuracy
    (mantissa : Nat)
    (accuracy : Accuracy) :
    (ExtendedMantissa.ofMantissaAndAccuracy mantissa accuracy).mantissa = mantissa := by
  cases accuracy with
  | exact => rfl
  | inexact order => cases order <;> rfl

theorem roundedMantissa_bounds (em : ExtendedMantissa) :
    em.mantissa ≤ em.roundedMantissa ∧ em.roundedMantissa ≤ em.mantissa + 1 := by
  unfold ExtendedMantissa.roundedMantissa
  cases em.accuracy with
  | exact => exact ⟨Nat.le_refl _, Nat.le_succ _⟩
  | inexact order =>
    cases order with
    | lt => exact ⟨Nat.le_refl _, Nat.le_succ _⟩
    | gt => exact ⟨Nat.le_succ _, Nat.le_refl _⟩
    | eq =>
      simp only [Accuracy.roundToNearestEven]
      omega

theorem log2_div_two_pow
    {n count : Nat}
    (positive : 0 < n / 2 ^ count) :
    (n / 2 ^ count).log2 + count = n.log2 := by
  have notZero : n ≠ 0 := by
    rintro rfl
    simp at positive
  have bounds := (Nat.log2_eq_iff (Nat.ne_of_gt positive)).mp rfl
  apply Eq.symm
  rw [Nat.log2_eq_iff notZero, Nat.pow_add, Nat.add_right_comm, Nat.pow_add]
  have power := Nat.two_pow_pos count
  exact ⟨(Nat.le_div_iff_mul_le power).mp bounds.1, (Nat.div_lt_iff_lt_mul power).mp bounds.2⟩

theorem log2_le_log2
    {m n : Nat}
    (le : m ≤ n) :
    m.log2 ≤ n.log2 := by
  by_cases isZero : m = 0
  · rw [isZero]
    exact Nat.zero_le _
  · have power := (Nat.log2_eq_iff isZero).mp rfl
    exact (Nat.le_log2 (by omega)).mpr (Nat.le_trans power.1 le)

section Rounding

variable {m : Nat} {e : Int}

/-- What is left of a significand when its last `cut` digits are dropped so that it fits. -/
structure Cut (m : Nat) (e : Int) (cut : Nat) : Prop where
  small : m / 2 ^ cut < 2 ^ 53
  least : -1074 ≤ e + cut
  filled : 2 ^ 52 ≤ m / 2 ^ cut ∨ e + cut = -1074
  keeps : 0 < m → -1074 ≤ e → 0 < m / 2 ^ cut

/-- Digits are cut off until the significand fits. -/
theorem cut_of_enough (enough : 2 ^ 52 ≤ m ∨ e ≤ -1074) :
    Cut m e (max (totalExponent m e - 53) (-1074) - e).toNat := by
  have log : 2 ^ 52 ≤ m → 52 ≤ m.log2 := fun large => (Nat.le_log2 (by omega)).mpr large
  have aligned : e + (max (totalExponent m e - 53) (-1074) - e).toNat =
      max (totalExponent m e - 53) (-1074) := by
    simp only [totalExponent]
    rcases enough with large | low
    · have := log large
      omega
    · omega
  generalize (max (totalExponent m e - 53) (-1074) - e).toNat = cut at aligned
  simp only [totalExponent] at aligned
  have power := Nat.two_pow_pos cut
  have bound : m < 2 ^ (m.log2 + 1) := Nat.lt_log2_self
  have filled : 2 ^ 52 ≤ m / 2 ^ cut ∨ e + cut = -1074 := by
    by_cases isLeast : e + cut = -1074
    · exact .inr isLeast
    · left
      have digits : 52 + cut = m.log2 := by omega
      have notZero : m ≠ 0 := by
        rintro rfl
        simp at digits
      rw [Nat.le_div_iff_mul_le power, ← Nat.pow_add, digits]
      exact (Nat.log2_eq_iff notZero).mp rfl |>.1
  refine ⟨?_, by omega, filled, fun positive high => ?_⟩
  · rw [Nat.div_lt_iff_lt_mul power, ← Nat.pow_add]
    exact Nat.lt_of_lt_of_le bound (Nat.pow_le_pow_right (by omega) (by omega))
  · rcases filled with large | isLeast
    · omega
    · obtain rfl : cut = 0 := by omega
      rw [Nat.pow_zero, Nat.div_one]
      exact positive

/-- What is known of a number that was rounded from `m * 2 ^ e`: its first digit has moved by at most
one place, and it is not zero unless digits below the least exponent were cut off. -/
structure Rounded (m : Nat) (e : Int) (b : Binary) : Prop where
  fits : b.Fits
  notAbove : b.top ≤ max (totalExponent m e) (-1073) + 1
  notBelow : 0 < m → -1074 ≤ e → 0 < b.significand ∧ totalExponent m e ≤ b.top

/-- A significand that was rounded needs at most one more cut, which is exact. -/
theorem Cut.rounded
    {cut : Nat}
    (isCut : Cut m e cut)
    {rounded : Nat}
    (lower : m / 2 ^ cut ≤ rounded)
    (upper : rounded ≤ m / 2 ^ cut + 1)
    (negative : Bool) :
    let count := (max (totalExponent rounded (e + cut) - 53) (-1074) - (e + cut)).toNat
    Rounded m e ⟨negative, rounded / 2 ^ count,
      if rounded / 2 ^ count = 0 then -1074 else e + cut + count⟩ := by
  obtain ⟨small, least, filled, keeps⟩ := isCut
  have place : 0 < m / 2 ^ cut → totalExponent m e = (m / 2 ^ cut).log2 + 1 + (e + cut) := by
    intro positive
    have := log2_div_two_pow positive
    simp only [totalExponent]
    omega
  generalize m / 2 ^ cut = shifted at *
  generalize e + cut = start at *
  intro count
  by_cases carries : rounded = 2 ^ 53
  · -- the significand was all ones, and the carry needs one more place
    have ones : shifted.log2 = 52 := (Nat.log2_eq_iff (by omega)).mpr ⟨by omega, by omega⟩
    have topEq := place (by omega)
    have again : count = 1 := by
      simp only [count, carries, totalExponent, Nat.log2_two_pow]
      omega
    have half : rounded / 2 ^ count = 2 ^ 52 := by
      rw [again, carries]
      omega
    have log : (2 ^ 52).log2 = 52 := Nat.log2_two_pow
    rw [half, if_neg (by decide), again]
    have fits : Fits ⟨negative, 2 ^ 52, start + (1 : Nat)⟩ :=
      ⟨by simp, by simp only; omega, .inl (Nat.le_refl _)⟩
    have newTop : top ⟨negative, 2 ^ 52, start + (1 : Nat)⟩ = start + 54 := by
      simp only [top, totalExponent, log]
      omega
    exact ⟨fits, by omega, fun _ _ => ⟨by simp, by omega⟩⟩
  · have digits : rounded.log2 ≤ 52 := by
      have bound := log2_le_log2 (show rounded ≤ 2 ^ 53 - 1 by omega)
      have ones : Nat.log2 (2 ^ 53 - 1) = 52 := by decide
      omega
    have exact : count = 0 := by
      simp only [count, totalExponent]
      omega
    rw [exact, Nat.pow_zero, Nat.div_one]
    have notSmaller := log2_le_log2 lower
    by_cases isZero : rounded = 0
    · subst isZero
      rw [if_pos rfl]
      have newTop : top ⟨negative, 0, -1074⟩ = -1073 := rfl
      refine ⟨⟨by simp, by simp, .inr rfl⟩, by omega, fun positive high => ?_⟩
      have := keeps positive high
      omega
    · rw [if_neg isZero, Int.natCast_zero, Int.add_zero]
      have newTop : top ⟨negative, rounded, start⟩ = rounded.log2 + 1 + start := rfl
      refine ⟨⟨by simp only; omega, least, ?_⟩, ?_, fun positive high => ⟨by simp only; omega, ?_⟩⟩
      · rcases filled with large | isLeast
        · exact .inl (by simp only; omega)
        · exact .inr isLeast
      · by_cases vanished : shifted = 0
        · obtain rfl : rounded = 1 := by omega
          rw [newTop, show Nat.log2 1 = 0 by decide]
          omega
        · have topEq := place (by omega)
          have doubled := log2_le_log2 (show rounded ≤ 2 * shifted by omega)
          rw [Nat.log2_two_mul vanished] at doubled
          omega
      · have topEq := place (keeps positive high)
        omega

theorem ofUnpacked?_dite
    (sign : Sign)
    (significand : Nat)
    (exponent : Int) :
    ofUnpacked? (if isZero : significand = 0 then .zero sign
        else .finite sign significand exponent (Nat.pos_of_ne_zero isZero)) =
      some ⟨isNegative sign, significand, if significand = 0 then -1074 else exponent⟩ := by
  split
  · rename_i isZero
    rw [isZero]
    rfl
  · rfl

theorem roundWithAccuracy_rounded
    (sign : Sign)
    (enough : 2 ^ 52 ≤ m ∨ e ≤ -1074)
    (accuracy : Accuracy) :
    ∃ b, ofUnpacked? (roundWithAccuracy .binary64 sign m e accuracy) = some b ∧
      b.negative = isNegative sign ∧ Rounded m e b := by
  have bounds := roundedMantissa_bounds (ExtendedMantissa.ofMantissaAndAccuracy m accuracy >>>
    (max (totalExponent m e - 53) (-1074) - e).toNat)
  rw [mantissa_shiftRight, mantissa_ofMantissaAndAccuracy] at bounds
  unfold roundWithAccuracy
  simp only [shiftToTargetExponent, shiftToExponent, targetExponent_eq, mantissa_shiftRight,
    mantissa_ofMantissaAndAccuracy]
  rw [ofUnpacked?_dite]
  exact ⟨_, rfl, rfl, (cut_of_enough enough).rounded bounds.1 bounds.2 _⟩

theorem log2_shiftLeft
    (positive : 0 < m)
    (count : Nat) :
    (m <<< count).log2 = m.log2 + count := by
  have back : m <<< count / 2 ^ count = m := by
    rw [Nat.shiftLeft_eq, Nat.mul_div_cancel _ (Nat.two_pow_pos count)]
  have log := @log2_div_two_pow (m <<< count) count (by rwa [back])
  rw [back] at log
  exact log.symm

theorem round_rounded
    (sign : Sign)
    (positive : 0 < m) :
    ∃ b, ofUnpacked? (UnpackedFloat.round .binary64 sign m e) = some b ∧
      b.negative = isNegative sign ∧ Rounded m e b := by
  let count := (e - max (totalExponent m e - 53) (-1074)).toNat
  have longer : 0 < m <<< count := Nat.shiftLeft_pos_iff.mpr positive
  have log := log2_shiftLeft positive count
  have sameTop : totalExponent (m <<< count) (e - count) = totalExponent m e := by
    simp only [totalExponent, log]
    omega
  have enough : 2 ^ 52 ≤ m <<< count ∨ e - count ≤ -1074 := by
    by_cases low : e - count ≤ -1074
    · exact .inr low
    · left
      apply (Nat.le_log2 (Nat.ne_of_gt longer)).mp
      simp only [totalExponent, count] at low log ⊢
      omega
  obtain ⟨b, parts, isSign, rounded⟩ := roundWithAccuracy_rounded sign enough .exact
  refine ⟨b, parts, isSign, rounded.fits, sameTop ▸ rounded.notAbove, fun _ high => ?_⟩
  rw [← sameTop]
  exact rounded.notBelow longer (by simp only [count]; omega)

end Rounding

/-! ## Sums -/

/-- A number that a value in units of the least positive number was rounded to. -/
structure Nearly (value : Int) (b : Binary) : Prop where
  fits : b.Fits
  zero : value = 0 → b.significand = 0
  notZero : value ≠ 0 → 0 < b.significand
  notBelow : value ≠ 0 → value.natAbs.log2 - 1073 ≤ b.top
  notAbove : value ≠ 0 → b.top ≤ value.natAbs.log2 - 1072

theorem log2_magnitude
    {b : Binary}
    (fits : b.Fits)
    (positive : 0 < b.significand) :
    (b.magnitude.log2 : Int) - 1073 = b.top := by
  have least := fits.least
  have log := log2_shiftLeft positive (b.exponent + 1074).toNat
  rw [Nat.shiftLeft_eq] at log
  rw [magnitude, log, top, totalExponent]
  omega

/-- A number is its own rounding, whatever its sign. -/
theorem Fits.nearly
    {b : Binary}
    (fits : b.Fits)
    {value : Int}
    (size : value.natAbs = b.magnitude) :
    Nearly value b := by
  by_cases isZero : b.significand = 0
  · have vanishes : value = 0 := by
      rw [magnitude, isZero, Nat.zero_mul] at size
      omega
    exact ⟨fits, fun _ => isZero, fun differs => absurd vanishes differs,
      fun differs => absurd vanishes differs, fun differs => absurd vanishes differs⟩
  · have positive := Nat.pos_of_ne_zero isZero
    have isPositive := magnitude_pos positive
    have log := log2_magnitude fits positive
    rw [← size] at log isPositive
    exact ⟨fits, fun vanishes => by omega, fun _ => positive, fun _ => by omega, fun _ => by omega⟩

theorem normalize_nearly
    (n : Int)
    {e : Int}
    (least : -1074 ≤ e)
    (zeroSign : Sign) :
    ∃ b, ofUnpacked? (normalize .binary64 n e zeroSign) = some b ∧
      Nearly (n * 2 ^ (e + 1074).toNat) b := by
  have rounds : ∀ sign m, 0 < m → m = n.natAbs →
      ∃ b, ofUnpacked? (UnpackedFloat.round .binary64 sign m e) = some b ∧
        Nearly (n * 2 ^ (e + 1074).toNat) b := by
    rintro sign m positive rfl
    obtain ⟨b, parts, -, rounded⟩ := @round_rounded n.natAbs e sign positive
    have size : (n * 2 ^ (e + 1074).toNat).natAbs.log2 = n.natAbs.log2 + (e + 1074).toNat := by
      rw [← log2_shiftLeft positive, Nat.shiftLeft_eq, Int.natAbs_mul, Int.natAbs_pow]
      rfl
    obtain ⟨notZero, notBelow⟩ := rounded.notBelow positive least
    have notAbove := rounded.notAbove
    simp only [totalExponent] at notBelow notAbove
    have differs : n * 2 ^ (e + 1074).toNat ≠ 0 := by
      have power : (2 : Int) ^ (e + 1074).toNat ≠ 0 := by positivity
      exact mul_ne_zero (by omega) power
    exact ⟨b, parts, rounded.fits, fun vanishes => absurd vanishes differs, fun _ => notZero,
      fun _ => by omega, fun _ => by omega⟩
  unfold UnpackedFloat.normalize
  rcases Int.lt_trichotomy n 0 with less | rfl | greater
  · rw [Int.compare_eq_lt.mpr less]
    exact rounds .negative _ (by omega) (by omega)
  · rw [Int.compare_eq_eq.mpr rfl]
    refine ⟨_, rfl, Fits.nearly ⟨by simp, by simp, .inr rfl⟩ ?_⟩
    simp [magnitude]
  · rw [Int.compare_eq_gt.mpr greater]
    exact rounds .positive _ (by omega) (by omega)

theorem Fits.top_le
    {b : Binary}
    (fits : b.Fits)
    {bound : Nat}
    (positive : 0 < bound)
    (small : b.magnitude < 2 ^ bound) :
    b.top ≤ bound - 1074 := by
  by_cases isZero : b.significand = 0
  · obtain isLeast := fits.filled.resolve_left (by omega)
    simp only [top, totalExponent, isZero, isLeast, Nat.log2_zero]
    omega
  · have notZero := Nat.pos_of_ne_zero isZero
    have log := log2_magnitude fits notZero
    have digits := (Nat.log2_lt (Nat.ne_of_gt (magnitude_pos notZero))).mpr small
    omega

theorem Nearly.top_le
    {value : Int}
    {b : Binary}
    (nearly : Nearly value b)
    {bound : Nat}
    (small : value.natAbs < 2 ^ bound) :
    b.top ≤ bound - 1073 := by
  by_cases isZero : value = 0
  · have vanishes := nearly.zero isZero
    have isLeast := nearly.fits.filled.resolve_left (by omega)
    simp only [top, totalExponent, vanishes, isLeast, Nat.log2_zero]
    omega
  · have notAbove := nearly.notAbove isZero
    have digits := (Nat.log2_lt (Int.natAbs_ne_zero.mpr isZero)).mpr small
    omega

/-- Bringing a number to a smaller exponent keeps its value. -/
theorem apply_decreaseExponent
    (sign : Sign)
    (m : Nat)
    {e target : Int}
    (least : -1074 ≤ target)
    (smaller : target ≤ e) :
    sign.apply ((decreaseExponent m e target).1 : Int) * 2 ^ (target + 1074).toNat =
      scaled ⟨isNegative sign, m, e⟩ := by
  have size : (m <<< (e - target).toNat) * 2 ^ (target + 1074).toNat =
      magnitude ⟨isNegative sign, m, e⟩ := by
    have sum : (e + 1074).toNat = (e - target).toNat + (target + 1074).toNat := by omega
    rw [magnitude, sum, Nat.pow_add, Nat.shiftLeft_eq, Nat.mul_assoc]
  have sizeInt : ((m <<< (e - target).toNat : Nat) : Int) * 2 ^ (target + 1074).toNat =
      (magnitude ⟨isNegative sign, m, e⟩ : Int) := by
    rw [← size]
    push_cast
    rfl
  cases sign with
  | positive => exact sizeInt
  | negative =>
    change -((m <<< (e - target).toNat : Nat) : Int) * _ = -(magnitude ⟨true, m, e⟩ : Int)
    rw [neg_mul, sizeInt]
    rfl

theorem Fits.top_ge
    {b : Binary}
    (fits : b.Fits) :
    -1073 ≤ b.top := by
  have := fits.least
  simp only [top, totalExponent]
  omega

theorem Fits.exponent_le
    {b : Binary}
    (fits : b.Fits) :
    b.exponent ≤ max (b.top - 53) (-1074) := by
  rcases fits.filled with large | isLeast
  · have := (Nat.le_log2 (by omega)).mpr large
    simp only [top, totalExponent]
    omega
  · omega

theorem Fits.magnitude_lt_two_pow
    {b : Binary}
    (fits : b.Fits)
    {bound : Nat}
    (small : b.top + 1074 ≤ bound) :
    b.magnitude < 2 ^ bound := by
  have least := fits.least
  have digits : b.significand < 2 ^ (b.significand.log2 + 1) := Nat.lt_log2_self
  calc b.magnitude
      < 2 ^ (b.significand.log2 + 1) * 2 ^ (b.exponent + 1074).toNat :=
        Nat.mul_lt_mul_of_pos_right digits (Nat.two_pow_pos _)
    _ = 2 ^ (b.significand.log2 + 1 + (b.exponent + 1074).toNat) := (Nat.pow_add ..).symm
    _ ≤ 2 ^ bound := by
        apply Nat.pow_le_pow_right (by omega)
        simp only [top, totalExponent] at small
        omega

/-- A value that is not too large is packed into a finite number. -/
theorem Nearly.ofFloat?_pack
    {u : UnpackedFloat}
    {value : Int}
    {c : Binary}
    (nearly : Nearly value c)
    (parts : ofUnpacked? u = some c)
    (small : value.natAbs < 2 ^ 2076) :
    ofFloat? (.ofModel (.pack u)) = some c := by
  apply Binary.ofFloat?_pack parts nearly.fits
  have bound := nearly.fits.exponent_le
  by_cases isZero : value = 0
  · have vanishes := nearly.zero isZero
    rcases nearly.fits.filled with large | isLeast
    · omega
    · omega
  · have notAbove := nearly.notAbove isZero
    have digits := (Nat.log2_lt (Int.natAbs_ne_zero.mpr isZero)).mpr small
    omega

theorem natAbs_scaled (b : Binary) : b.scaled.natAbs = b.magnitude := by
  unfold scaled
  split <;> simp

theorem nearly_zero (negative : Bool) : Nearly 0 ⟨negative, 0, -1074⟩ :=
  Fits.nearly ⟨by simp, by simp, .inr rfl⟩ (by simp [magnitude])

section Unpacked

variable {u v : UnpackedFloat} {a b : Binary} (partsU : ofUnpacked? u = some a)
  (partsV : ofUnpacked? v = some b) (fitsA : a.Fits) (fitsB : b.Fits)

include partsU partsV fitsA fitsB

theorem sub_unpacked :
    ∃ c, ofUnpacked? (UnpackedFloat.sub .binary64 u v) = some c ∧
      Nearly (a.scaled - b.scaled) c := by
  cases u with
  | infinity sign => cases partsU
  | notANumber => cases partsU
  | zero sign =>
    cases partsU
    rw [scaled_zero]
    cases v with
    | infinity sign' => cases partsV
    | notANumber => cases partsV
    | zero sign' =>
      cases partsV
      rw [scaled_zero]
      cases sign <;> cases sign' <;> exact ⟨_, rfl, nearly_zero _⟩
    | finite sign' m e positive =>
      cases partsV
      have flipped : Fits ⟨isNegative (-sign'), m, e⟩ := ⟨fitsB.small, fitsB.least, fitsB.filled⟩
      refine ⟨_, rfl, flipped.nearly ?_⟩
      rw [Int.zero_sub, Int.natAbs_neg, natAbs_scaled]
      rfl
  | finite sign m e positive =>
    cases partsU
    cases v with
    | infinity sign' => cases partsV
    | notANumber => cases partsV
    | zero sign' =>
      cases partsV
      rw [scaled_zero, Int.sub_zero]
      exact ⟨_, rfl, fitsA.nearly (natAbs_scaled _)⟩
    | finite sign' m' e' positive' =>
      cases partsV
      have least : -1074 ≤ min e e' := le_min fitsA.least fitsB.least
      rw [← apply_decreaseExponent sign m least (min_le_left e e'),
        ← apply_decreaseExponent sign' m' least (min_le_right e e'), ← Int.sub_mul]
      exact normalize_nearly _ least .positive

omit partsU partsV fitsA fitsB in
theorem add_eq_sub :
    UnpackedFloat.add .binary64 u v = UnpackedFloat.sub .binary64 u v.neg := by
  have twice : ∀ sign : Sign, - -sign = sign := by rintro (_ | _) <;> rfl
  cases u <;> cases v <;> simp only [UnpackedFloat.add, UnpackedFloat.sub, UnpackedFloat.neg, twice]
  case finite.finite sign m e positive sign' m' e' positive' =>
    have opposite : ∀ n : Int, (-sign').apply n = -sign'.apply n := by
      intro n
      cases sign' with
      | negative => exact (Int.neg_neg n).symm
      | positive => rfl
    rw [opposite, Int.sub_neg]

theorem add_unpacked :
    ∃ c, ofUnpacked? (UnpackedFloat.add .binary64 u v) = some c ∧
      Nearly (a.scaled + b.scaled) c := by
  have opposite : ofUnpacked? v.neg = some { b with negative := !b.negative } := by
    cases v with
    | infinity sign => cases partsV
    | notANumber => cases partsV
    | zero sign =>
      cases partsV
      cases sign <;> rfl
    | finite sign m e positive =>
      cases partsV
      cases sign <;> rfl
  have value : scaled { b with negative := !b.negative } = -b.scaled := by
    obtain ⟨negative, m, e⟩ := b
    cases negative <;> simp [scaled, magnitude]
  rw [add_eq_sub, ← Int.sub_neg, ← value]
  exact sub_unpacked partsU opposite fitsA ⟨fitsB.small, fitsB.least, fitsB.filled⟩

end Unpacked

section Sums

variable {x y : Float} {a b : Binary} (partsX : ofFloat? x = some a) (partsY : ofFloat? y = some b)
  (smallX : a.top ≤ 1000) (smallY : b.top ≤ 1000)

include partsX partsY smallX smallY

theorem scaled_bounds :
    (a.scaled - b.scaled).natAbs < 2 ^ 2076 ∧ (a.scaled + b.scaled).natAbs < 2 ^ 2076 := by
  have boundA : a.magnitude < 2 ^ 2074 := (ofFloat?_fits partsX).magnitude_lt_two_pow (by omega)
  have boundB : b.magnitude < 2 ^ 2074 := (ofFloat?_fits partsY).magnitude_lt_two_pow (by omega)
  rw [← natAbs_scaled] at boundA boundB
  omega

/-- A difference is the exact difference, rounded. -/
theorem sub_nearly :
    ∃ c, ofFloat? (x - y) = some c ∧ Nearly (a.scaled - b.scaled) c := by
  obtain ⟨c, parts, nearly⟩ := sub_unpacked (ofFloat?_eq x ▸ partsX) (ofFloat?_eq y ▸ partsY)
    (ofFloat?_fits partsX) (ofFloat?_fits partsY)
  exact ⟨c, nearly.ofFloat?_pack parts (scaled_bounds partsX partsY smallX smallY).1, nearly⟩

/-- A sum is the exact sum, rounded. -/
theorem add_nearly :
    ∃ c, ofFloat? (x + y) = some c ∧ Nearly (a.scaled + b.scaled) c := by
  obtain ⟨c, parts, nearly⟩ := add_unpacked (ofFloat?_eq x ▸ partsX) (ofFloat?_eq y ▸ partsY)
    (ofFloat?_fits partsX) (ofFloat?_fits partsY)
  exact ⟨c, nearly.ofFloat?_pack parts (scaled_bounds partsX partsY smallX smallY).2, nearly⟩

end Sums

/-! ## Products and quotients -/

theorem log2_mul_le
    {m n : Nat}
    (positiveM : 0 < m)
    (positiveN : 0 < n) :
    (m * n).log2 ≤ m.log2 + n.log2 + 1 := by
  have product := Nat.mul_pos positiveM positiveN
  have bound : m * n < 2 ^ (m.log2 + 1) * 2 ^ (n.log2 + 1) :=
    Nat.mul_lt_mul'' Nat.lt_log2_self Nat.lt_log2_self
  rw [← Nat.pow_add] at bound
  have := (Nat.log2_lt (Nat.ne_of_gt product)).mpr bound
  omega

theorem le_log2_mul
    {m n : Nat}
    (positiveM : 0 < m)
    (positiveN : 0 < n) :
    m.log2 + n.log2 ≤ (m * n).log2 := by
  rw [Nat.le_log2 (Nat.ne_of_gt (Nat.mul_pos positiveM positiveN)), Nat.pow_add]
  exact Nat.mul_le_mul (Nat.log2_self_le (Nat.ne_of_gt positiveM))
    (Nat.log2_self_le (Nat.ne_of_gt positiveN))

/-- The quotient of two significands with enough digits, and the place of its first digit. -/
theorem divCore_bounds
    {m m' : Nat}
    (positive : 0 < m)
    (positive' : 0 < m')
    (e e' : Int) :
    let parts := divCore .binary64 m e m' e'
    (2 ^ 52 ≤ parts.1 ∨ parts.2.1 ≤ -1074) ∧
      totalExponent parts.1 parts.2.1 ≤
        max (totalExponent m e - totalExponent m' e' + 1) (-1073) := by
  let target := min (e - e') (max (totalExponent m e - totalExponent m' e' - 53) (-1074))
  let count := (e - e' - target).toNat
  change (2 ^ 52 ≤ m <<< count / m' ∨ target ≤ -1074) ∧ totalExponent (m <<< count / m') target ≤ _
  have countEq : (count : Int) = e - e' - target := by omega
  have log := log2_shiftLeft positive count
  have targetLe : target ≤ max (totalExponent m e - totalExponent m' e' - 53) (-1074) :=
    min_le_right _ _
  generalize target = start at *
  simp only [totalExponent] at targetLe ⊢
  constructor
  · by_cases low : start ≤ -1074
    · exact .inr low
    · left
      have shifted : 52 + (m'.log2 + 1) ≤ (m <<< count).log2 := by omega
      have notZero : m <<< count ≠ 0 := Nat.ne_of_gt (Nat.shiftLeft_pos_iff.mpr positive)
      have large := (Nat.le_log2 notZero).mp shifted
      rw [Nat.le_div_iff_mul_le positive']
      rw [Nat.pow_add] at large
      exact Nat.le_trans (Nat.mul_le_mul_left _ (Nat.le_of_lt Nat.lt_log2_self)) large
  · by_cases isZero : m <<< count / m' = 0
    · rw [isZero]
      simp only [Nat.log2_zero]
      omega
    · have quotient := Nat.pos_of_ne_zero isZero
      have product := log2_le_log2 (Nat.div_mul_le_self (m <<< count) m')
      have lower := le_log2_mul quotient positive'
      omega

section Products

variable {u v : UnpackedFloat} {a b : Binary} (partsU : ofUnpacked? u = some a)
  (partsV : ofUnpacked? v = some b) (fitsA : a.Fits) (fitsB : b.Fits)

include partsU partsV fitsA fitsB

theorem mul_unpacked :
    ∃ c, ofUnpacked? (UnpackedFloat.mul .binary64 u v) = some c ∧ c.Fits ∧
      c.top ≤ max (a.top + b.top) (-1073) + 1 := by
  have isZero : ∀ negative, ∃ c, (some ⟨negative, 0, -1074⟩ : Option Binary) = some c ∧ c.Fits ∧
      c.top ≤ max (a.top + b.top) (-1073) + 1 := by
    intro negative
    refine ⟨_, rfl, (nearly_zero negative).fits, ?_⟩
    rw [show top ⟨negative, 0, -1074⟩ = -1073 from rfl]
    omega
  cases u with
  | infinity sign => cases partsU
  | notANumber => cases partsU
  | zero sign =>
    cases v with
    | infinity sign' => cases partsV
    | notANumber => cases partsV
    | zero sign' => exact isZero _
    | finite sign' m e positive => exact isZero _
  | finite sign m e positive =>
    cases v with
    | infinity sign' => cases partsV
    | notANumber => cases partsV
    | zero sign' => exact isZero _
    | finite sign' m' e' positive' =>
      cases partsU
      cases partsV
      have enough : 2 ^ 52 ≤ m * m' ∨ e + e' ≤ -1074 := by
        rcases fitsA.filled with large | isLeast
        · exact .inl (Nat.le_trans large (Nat.le_mul_of_pos_right m positive'))
        · rcases fitsB.filled with large | isLeast'
          · exact .inl (Nat.le_trans large (Nat.le_mul_of_pos_left m' positive))
          · exact .inr (by simp only at isLeast isLeast'; omega)
      obtain ⟨c, parts, -, rounded⟩ := roundWithAccuracy_rounded (sign * sign') enough .exact
      refine ⟨c, parts, rounded.fits, ?_⟩
      have notAbove := rounded.notAbove
      have digits := log2_mul_le positive positive'
      simp only [top, totalExponent] at notAbove ⊢
      omega

theorem div_unpacked (notZero : 0 < b.significand) :
    ∃ c, ofUnpacked? (UnpackedFloat.div .binary64 u v) = some c ∧ c.Fits ∧
      c.top ≤ max (a.top - b.top + 1) (-1073) + 1 := by
  cases v with
  | infinity sign' => cases partsV
  | notANumber => cases partsV
  | zero sign' =>
    cases partsV
    exact absurd notZero (Nat.lt_irrefl 0)
  | finite sign' m' e' positive' =>
    cases u with
    | infinity sign => cases partsU
    | notANumber => cases partsU
    | zero sign =>
      refine ⟨_, rfl, (nearly_zero _).fits, ?_⟩
      rw [show top ⟨isNegative (sign / sign'), 0, -1074⟩ = -1073 from rfl]
      omega
    | finite sign m e positive =>
      cases partsU
      cases partsV
      obtain ⟨enough, bound⟩ := divCore_bounds positive positive' e e'
      obtain ⟨c, parts, -, rounded⟩ := roundWithAccuracy_rounded (sign / sign') enough
        (divCore .binary64 m e m' e').2.2
      refine ⟨c, parts, rounded.fits, ?_⟩
      have notAbove := rounded.notAbove
      simp only [top] at notAbove ⊢
      omega

end Products

section Products

variable {x y : Float} {a b : Binary} (partsX : ofFloat? x = some a) (partsY : ofFloat? y = some b)

include partsX partsY

theorem mul_parts (small : a.top + b.top ≤ 1000) :
    ∃ c, ofFloat? (x * y) = some c ∧ c.top ≤ max (a.top + b.top) (-1073) + 1 := by
  obtain ⟨c, parts, fits, bound⟩ := mul_unpacked (ofFloat?_eq x ▸ partsX) (ofFloat?_eq y ▸ partsY)
    (ofFloat?_fits partsX) (ofFloat?_fits partsY)
  have exponent := fits.exponent_le
  exact ⟨c, ofFloat?_pack parts fits (by omega), bound⟩

theorem div_parts
    (notZero : 0 < b.significand)
    (small : a.top - b.top ≤ 1000) :
    ∃ c, ofFloat? (x / y) = some c ∧ c.top ≤ max (a.top - b.top + 1) (-1073) + 1 := by
  obtain ⟨c, parts, fits, bound⟩ := div_unpacked (ofFloat?_eq x ▸ partsX) (ofFloat?_eq y ▸ partsY)
    (ofFloat?_fits partsX) (ofFloat?_fits partsY) notZero
  have exponent := fits.exponent_le
  exact ⟨c, ofFloat?_pack parts fits (by omega), bound⟩

end Products

/-! ## Whole numbers -/

/-- Bits whose exponent is not the greatest one are those of a finite number. -/
theorem exists_of_bits
    (negative : Bool)
    {bits : Nat}
    (small : bits < infinityBits) :
    ∃ b, ofFloat? (.ofBits (UInt64.ofNat (signBits negative + bits))) = some b := by
  let word := signBits negative + bits
  have bound : word < 2 ^ 64 ∧ word / 2 ^ 52 % 2048 ≠ 2047 := by
    simp only [infinityBits, Nat.pow_eq] at small
    simp only [word, signBits, Nat.pow_eq]
    split <;> omega
  have read : ofWord? word ≠ none := by
    unfold ofWord?
    simp only [Nat.pow_eq, if_neg bound.2]
    split <;> simp
  obtain ⟨b, parts⟩ := Option.ne_none_iff_exists'.mp read
  refine ⟨b, ofFloat?_ofBits ?_⟩
  rwa [UInt64.toNat_ofNat', Nat.mod_eq_of_lt bound.1]

theorem toFloat_finite
    (negative : Bool)
    {n : Nat}
    (small : n < 2 ^ 53) :
    ∃ b, ofFloat? (toFloat ⟨negative, n, 0⟩) = some b := by
  unfold toFloat
  split
  · have zero := exists_of_bits negative (show 0 < infinityBits by decide)
    rwa [Nat.add_zero] at zero
  · rename_i notZero
    simp only at notZero
    have digits := (Nat.log2_lt notZero).mpr small
    have fitted : round .double ⟨negative, n, 0⟩ =
        ⟨negative, n <<< (52 - n.log2), (n.log2 : Int) - 52⟩ := by
      have length : bitLength n = n.log2 + 1 := if_neg notZero
      have last : max (-1074 : Int) (0 + (bitLength n : Int) - (53 : Nat)) = n.log2 - 52 := by
        rw [length]
        omega
      simp only [round, Format.double, last]
      rw [if_pos (by omega)]
      congr 2
      omega
    have shifted : n <<< (52 - n.log2) < 2 ^ 53 := by
      rw [← Nat.log2_lt (Nat.ne_of_gt (Nat.shiftLeft_pos_iff.mpr (Nat.pos_of_ne_zero notZero))),
        log2_shiftLeft (Nat.pos_of_ne_zero notZero)]
      omega
    have inRange : (n.log2 - 52 + 1074 : Int).toNat * Nat.pow 2 52 + n <<< (52 - n.log2) <
        infinityBits := by
      simp only [infinityBits, Nat.pow_eq]
      omega
    simp only [fitted, Nat.min_eq_left (Nat.le_of_lt inRange)]
    exact exists_of_bits negative inRange

end Binary

/-- Rounding to a whole number keeps a number finite. -/
theorem roundAway_finite
    {x : Float}
    {a : Binary}
    (parts : Binary.ofFloat? x = some a) :
    ∃ b, Binary.ofFloat? (roundAway x) = some b := by
  have small := (Binary.ofFloat?_fits parts).small
  rw [roundAway, parts]
  simp only
  split
  · exact ⟨a, parts⟩
  · rename_i fractional
    apply Binary.toFloat_finite
    obtain ⟨places, isPositive⟩ : ∃ places, (-a.exponent).toNat = places + 1 :=
      ⟨(-a.exponent).toNat - 1, by omega⟩
    have unit := Nat.two_pow_pos places
    rw [isPositive, Nat.pow_eq, Nat.pow_succ, Nat.div_lt_iff_lt_mul (by omega)]
    omega

end StyleSense.Number

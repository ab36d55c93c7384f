import ExchangeFees.Decimal
import ExchangeFees.Proofs.Text.Decimal
import Mathlib.Algebra.Order.Ring.Nat

/-! Integers over powers of ten. The quotient of an integer by a power of ten, brought to as many
places as the power has zeros, is the integer with its point moved, as long as the integer has no
more digits than the precision. With more digits the quotient is rounded, but it keeps reaching the
power of ten that it reached before, and so it cannot be brought to those places. It reaches a
power that it did not reach before only by rounding up from half a last place below, and so the
integers whose quotient has too great an exponent begin there. -/
namespace ExchangeFees

namespace Binary64

theorem div_le_roundQuotient (num den : Nat) : num / den ≤ roundQuotient num den := by
  simp only [roundQuotient]
  split
  · exact Nat.le_succ _
  · exact Nat.le_refl _

theorem roundQuotient_le (num den : Nat) : roundQuotient num den ≤ num / den + 1 := by
  simp only [roundQuotient]
  split
  · exact Nat.le_refl _
  · exact Nat.le_succ _

/-- Ties go to the even number, so it is reached from half a unit below. -/
theorem even_le_roundQuotient_iff {num den m : Nat} (positive : 0 < den) :
    2 * m ≤ roundQuotient num den ↔ (2 * (2 * m) - 1) * den ≤ 2 * num := by
  have rest := Nat.mod_lt num positive
  have parts : 2 * num = 2 * (num / den) * den + 2 * (num % den) := by
    rw [Nat.mul_assoc, ← Nat.mul_add, Nat.div_add_mod']
  simp only [roundQuotient, Bool.or_eq_true, Bool.and_eq_true, decide_eq_true_eq]
  generalize num / den = q at *
  generalize num % den = r at *
  rw [parts]
  obtain far | near | reached : q + 2 ≤ 2 * m ∨ 2 * m = q + 1 ∨ 2 * m ≤ q := by omega
  · -- The quotient is below by more than a unit, and rounding does not add more.
    have unreached : ¬ (2 * (2 * m) - 1) * den ≤ 2 * q * den + 2 * r := by
      have := Nat.mul_le_mul_right den (show 2 * q + 2 + 1 ≤ 2 * (2 * m) - 1 by omega)
      rw [Nat.add_mul, Nat.add_mul, Nat.one_mul] at this
      omega
    refine iff_of_false ?_ unreached
    split <;> omega
  · rw [near, show 2 * (q + 1) - 1 = 2 * q + 1 by omega, Nat.add_mul, Nat.one_mul]
    split <;> omega
  · have half : (2 * (2 * m) - 1) * den ≤ 2 * q * den + 2 * r :=
      Nat.le_trans (Nat.mul_le_mul_right den (by omega)) (Nat.le_add_right _ _)
    refine iff_of_true ?_ half
    split <;> omega

theorem roundQuotient_one (num : Nat) : roundQuotient num 1 = num := by
  simp [roundQuotient, Nat.mod_one]

end Binary64

namespace Decimal

open Binary64

variable {c k p : Nat} {x : Decimal}

theorem pow_ten_pos (k : Nat) : 0 < 10 ^ k := Nat.pow_pos (by decide)

theorem digitCount_pos (n : Nat) : 0 < digitCount n :=
  List.length_pos_iff.mpr (Text.digits_ne_nil n)

theorem digitCount_le_iff (positive : 0 < k) : digitCount c ≤ k ↔ c < 10 ^ k :=
  Text.length_digits_le_iff positive

theorem lt_digitCount_iff (positive : 0 < k) : k < digitCount c ↔ 10 ^ k ≤ c := by
  rw [← Nat.not_le, digitCount_le_iff positive, Nat.not_lt]

/-- A positive number reaches the power of ten of its leading digit. -/
theorem pow_le_of_pos (positive : 0 < c) : 10 ^ (digitCount c - 1) ≤ c := by
  obtain short | long := Nat.eq_zero_or_pos (digitCount c - 1)
  · rw [short]
    exact positive
  · exact (lt_digitCount_iff long).mp (by omega)

theorem digitCount_pow (k : Nat) : digitCount (10 ^ k) = k + 1 := by
  have upper : digitCount (10 ^ k) ≤ k + 1 :=
    (digitCount_le_iff (Nat.succ_pos k)).mpr (Nat.pow_lt_pow_succ (by decide))
  obtain rfl | positive := Nat.eq_zero_or_pos k
  · have := digitCount_pos (10 ^ 0)
    omega
  · have lower := (lt_digitCount_iff positive).mpr (Nat.le_refl (10 ^ k))
    omega

/-! What a quotient reaches. -/

/-- The magnitude of a decimal is at least ten to the `t`. -/
def Reaches (x : Decimal) (t : Int) : Prop := ∃ a : Nat, 10 ^ a ≤ x.coefficient ∧ t ≤ a + x.exponent

section Reaches

variable {negative : Bool} {e t : Int}

theorem reaches_of_exponent {a : Nat} (place : t = e + a) :
    Reaches ⟨negative, c, e⟩ t ↔ 10 ^ a ≤ c := by
  constructor
  · rintro ⟨b, reached, far⟩
    exact Nat.le_trans (Nat.pow_le_pow_right (by decide) (by simp only at far; omega)) reached
  · exact fun reached => ⟨a, reached, by simp only; omega⟩

theorem Reaches.le_digitCount (reaches : x.Reaches t) :
    t < digitCount x.coefficient + x.exponent := by
  obtain ⟨a, reached, far⟩ := reaches
  have below : a < digitCount x.coefficient := by
    obtain rfl | positive := Nat.eq_zero_or_pos a
    · exact digitCount_pos _
    · exact (lt_digitCount_iff positive).mpr reached
  omega

theorem pow_le_div_ten {a : Nat} (reached : 10 ^ a ≤ c) (large : 10 ≤ c) :
    10 ^ (a - 1) ≤ c / 10 := by
  rw [Nat.le_div_iff_mul_le (by decide)]
  cases a with
  | zero => exact large
  | succ a => exact reached

/-- A last digit that is taken off raises the exponent. -/
theorem reaches_div_ten (large : 10 ≤ c) :
    Reaches ⟨negative, c / 10, e + 1⟩ t ↔ Reaches ⟨negative, c, e⟩ t := by
  constructor
  · rintro ⟨a, reached, far⟩
    have longer : 10 ^ (a + 1) ≤ c := (Nat.le_div_iff_mul_le (by decide)).mp reached
    exact ⟨a + 1, longer, by simp only at far ⊢; omega⟩
  · rintro ⟨a, reached, far⟩
    exact ⟨a - 1, pow_le_div_ten reached large, by simp only at far ⊢; omega⟩

theorem reaches_stripZeros (positive : 0 < x.coefficient) (k : Nat) :
    (stripZeros k x).Reaches t ↔ x.Reaches t := by
  induction k generalizing x with
  | zero => exact Iff.rfl
  | succ k ih =>
    unfold stripZeros
    split
    · have large : 10 ≤ x.coefficient := by omega
      rw [ih (Nat.div_pos large (by decide)), reaches_div_ten large]
    · exact Iff.rfl

/-- Zeros that are taken off do not raise the leading digit. -/
theorem digitCount_stripZeros_le (positive : 0 < x.coefficient) (k : Nat) :
    digitCount (stripZeros k x).coefficient + (stripZeros k x).exponent ≤
      digitCount x.coefficient + x.exponent := by
  have some_digit := digitCount_pos (stripZeros k x).coefficient
  obtain ⟨a, reached, _⟩ : (stripZeros k x).Reaches x.exponent :=
    (reaches_stripZeros positive k).mpr ⟨0, positive, by omega⟩
  have kept : (stripZeros k x).Reaches
      (digitCount (stripZeros k x).coefficient + (stripZeros k x).exponent - 1) :=
    ⟨_, pow_le_of_pos ((pow_ten_pos a).trans_le reached), by omega⟩
  have := ((reaches_stripZeros positive k).mp kept).le_digitCount
  omega

/-- Whether rounding carries or not, the rounded quotient decides. -/
theorem reaches_round {num den excess : Nat} (positive : 0 < p)
    (excess_eq : digitCount (num / den) - p = excess) :
    (round p negative num den e).Reaches t ↔
      Reaches ⟨negative, roundQuotient num (den * 10 ^ excess), e + excess⟩ t := by
  subst excess_eq
  simp only [round, Nat.pow_eq]
  split
  · rename_i carried
    have large := (lt_digitCount_iff positive).mp carried
    exact reaches_div_ten (Nat.le_trans (Nat.le_self_pow positive.ne' 10) large)
  · exact Iff.rfl

/-- Rounding keeps what a quotient reaches. -/
theorem Reaches.round {num den : Nat} (positive : 0 < p)
    (reaches : Reaches ⟨negative, num / den, e⟩ t) : (round p negative num den e).Reaches t := by
  have above : t < digitCount (num / den) + e := reaches.le_digitCount
  obtain ⟨a, reached, _⟩ := reaches
  have leading := pow_le_of_pos ((pow_ten_pos a).trans_le reached)
  have some_digit := digitCount_pos (num / den)
  rw [reaches_round positive rfl]
  generalize excess_eq : digitCount (num / den) - p = excess
  -- The leading digit is never among those that are rounded away.
  refine ⟨digitCount (num / den) - 1 - excess, ?_, by simp only; omega⟩
  refine Nat.le_trans ?_ (div_le_roundQuotient _ _)
  have split : digitCount (num / den) - 1 - excess + excess = digitCount (num / den) - 1 := by
    omega
  rw [← Nat.div_div_eq_div_mul, Nat.le_div_iff_mul_le (pow_ten_pos excess), ← Nat.pow_add, split]
  exact leading

/-- Rounding reaches at most the power of ten above all the digits of a quotient. -/
theorem le_of_reaches_round {num den : Nat} (positive : 0 < p)
    (reaches : (round p negative num den e).Reaches t) : t ≤ digitCount (num / den) + e := by
  rw [reaches_round positive rfl] at reaches
  generalize excess_eq : digitCount (num / den) - p = excess at reaches
  obtain ⟨a, reached, far⟩ := reaches
  have some_digit := digitCount_pos (num / den)
  have upper : num / den / 10 ^ excess < 10 ^ (digitCount (num / den) - excess) := by
    rw [Nat.div_lt_iff_lt_mul (pow_ten_pos excess), ← Nat.pow_add, Nat.sub_add_cancel (by omega)]
    exact (digitCount_le_iff some_digit).mp (Nat.le_refl _)
  have rounded : 10 ^ a ≤ 10 ^ (digitCount (num / den) - excess) := by
    have := roundQuotient_le num (den * 10 ^ excess)
    rw [← Nat.div_div_eq_div_mul] at this
    exact Nat.le_trans reached (Nat.le_trans this upper)
  have := (Nat.pow_le_pow_iff_right (by decide)).mp rounded
  simp only at far
  omega

/-- A decimal is refused exactly if it reaches the power above the greatest exponent. -/
theorem limited_eq (x : Decimal) [Decidable (x.Reaches (greatestExponent + 1))] :
    x.limited =
      if x.Reaches (greatestExponent + 1) then .error .displayOverflow else .ok x := by
  refine if_congr ⟨?_, ?_⟩ rfl rfl
  · rintro ⟨nonzero, far⟩
    exact ⟨_, pow_le_of_pos (Nat.pos_of_ne_zero nonzero), by omega⟩
  · intro reaches
    have := reaches.le_digitCount
    obtain ⟨a, reached, _⟩ := reaches
    exact ⟨Nat.ne_of_gt ((pow_ten_pos a).trans_le reached), by omega⟩

end Reaches

theorem Reaches.pow_le_rescale {t e : Int} (reaches : x.Reaches t) (below : e ≤ t) :
    10 ^ (t - e).toNat ≤ (x.rescale e).coefficient := by
  obtain ⟨a, reached, place⟩ := reaches
  refine Nat.le_trans ?_ (div_le_roundQuotient _ _)
  rw [Nat.pow_eq, Nat.pow_eq, Nat.le_div_iff_mul_le (pow_ten_pos _), ← Nat.pow_add]
  calc 10 ^ ((t - e).toNat + (e - x.exponent).toNat)
      ≤ 10 ^ (a + (x.exponent - e).toNat) := Nat.pow_le_pow_right (by decide) (by omega)
    _ = 10 ^ a * 10 ^ (x.exponent - e).toNat := Nat.pow_add ..
    _ ≤ x.coefficient * 10 ^ (x.exponent - e).toNat := Nat.mul_le_mul_right _ reached

/-! What a quotient that ends is. -/

theorem stripZeros_mul_pow (negative : Bool) (c i k : Nat) (e : Int) :
    stripZeros (i + k) ⟨negative, c * 10 ^ i, e⟩ = stripZeros k ⟨negative, c, e + i⟩ := by
  induction i generalizing e with
  | zero => simp
  | succ i ih =>
    have zero : c * 10 ^ (i + 1) % 10 = 0 := by
      rw [Nat.pow_succ, ← Nat.mul_assoc]
      exact Nat.mul_mod_left _ _
    have off : c * 10 ^ (i + 1) / 10 = c * 10 ^ i := by
      rw [Nat.pow_succ, ← Nat.mul_assoc]
      exact Nat.mul_div_cancel _ (by decide)
    rw [Nat.add_right_comm, stripZeros, if_pos zero, off, ih, Int.natCast_succ, Int.add_right_comm,
      Int.add_assoc]

theorem negative_stripZeros (k : Nat) (x : Decimal) : (stripZeros k x).negative = x.negative := by
  induction k generalizing x with
  | zero => rfl
  | succ k ih =>
    unfold stripZeros
    split
    · exact ih _
    · rfl

theorem coefficient_stripZeros_le (k : Nat) (x : Decimal) :
    (stripZeros k x).coefficient ≤ x.coefficient := by
  induction k generalizing x with
  | zero => exact Nat.le_refl _
  | succ k ih =>
    unfold stripZeros
    split
    · exact (ih _).trans (Nat.div_le_self _ _)
    · exact Nat.le_refl _

/-- A decimal that fits the precision is not rounded. -/
theorem round_of_fits {negative : Bool} (sign : x.negative = negative) (positive : 0 < p)
    (fits : x.coefficient < 10 ^ p) : round p negative x.coefficient 1 x.exponent = x := by
  subst sign
  have short : digitCount x.coefficient ≤ p := (digitCount_le_iff positive).mpr fits
  simp [round, Nat.sub_eq_zero_of_le short, roundQuotient_one, Nat.not_lt.mpr short]

/-- Zeros that were taken off are put back by an exponent below. -/
theorem rescale_stripZeros {e : Int} (k : Nat) (below : e ≤ x.exponent) :
    (stripZeros k x).rescale e = x.rescale e := by
  induction k generalizing x with
  | zero => rfl
  | succ k ih =>
    unfold stripZeros
    split
    · rename_i zero
      rw [ih (by simp only; omega)]
      obtain ⟨i, gap⟩ := Int.le.dest below
      have shifted : (x.exponent + 1 - e).toNat = i + 1 := by omega
      have plain : (x.exponent - e).toNat = i := by omega
      have none : (e - (x.exponent + 1)).toNat = 0 ∧ (e - x.exponent).toNat = 0 := by omega
      have whole : x.coefficient / 10 * 10 = x.coefficient :=
        Nat.div_mul_cancel (Nat.dvd_of_mod_eq_zero zero)
      simp only [rescale, shifted, plain, none.1, none.2, Nat.pow_eq]
      rw [Nat.pow_succ', ← Nat.mul_assoc, whole]
    · rfl

theorem rescale_self (x : Decimal) : x.rescale x.exponent = x := by
  simp [rescale, roundQuotient_one]

/-- A quotient by a power of ten keeps its sign. -/
theorem sign_of_pow (negative : Bool) (k : Nat) :
    (negative ^^ decide (((10 ^ k : Nat) : Int) < 0)) = negative := by
  rw [decide_eq_false (Int.not_lt.mpr (Int.natCast_nonneg _)), Bool.xor_false]

section QuotientPow

variable {n : Int}

/-- The quotient of an integer that fits the precision is exact. -/
theorem quotient_pow_of_fits (positive : 0 < p) (fits : n.natAbs < 10 ^ p) :
    (ofInt n).quotient p (ofInt (10 ^ k : Nat)) = stripZeros k ⟨n < 0, n.natAbs, -k⟩ := by
  have short : digitCount n.natAbs ≤ p := (digitCount_le_iff positive).mpr fits
  obtain ⟨i, shift⟩ : ∃ i : Nat,
      (p : Int) + 1 + (k + 1 : Nat) - digitCount n.natAbs = (i + k : Nat) :=
    ⟨p + 2 - digitCount n.natAbs, by omega⟩
  have unshifted : (-((i + k : Nat) : Int)).toNat = 0 := by omega
  have ends : n.natAbs * 10 ^ (i + k) % 10 ^ k = 0 := by
    rw [Nat.pow_add, ← Nat.mul_assoc]
    exact Nat.mul_mod_left _ _
  have whole : n.natAbs * 10 ^ (i + k) / 10 ^ k = n.natAbs * 10 ^ i := by
    rw [Nat.pow_add, ← Nat.mul_assoc]
    exact Nat.mul_div_cancel _ (pow_ten_pos k)
  have exponent : (0 : Int) - 0 - (i + k : Nat) + i = -k := by omega
  simp only [quotient, ofInt, Int.natAbs_natCast, digitCount_pow, shift, sign_of_pow, Nat.pow_eq,
    Int.toNat_natCast, unshifted, Nat.pow_zero, Nat.mul_one, ends, if_true, whole,
    stripZeros_mul_pow, exponent]
  exact round_of_fits (negative_stripZeros k _) positive
    ((coefficient_stripZeros_le k _).trans_lt fits)

/-- The shift makes a quotient by a power of ten two digits longer than the precision. -/
theorem digitCount_shifted {n : Nat} {shift : Int} (positive : 0 < n)
    (shift_eq : (p : Int) + 1 + (k + 1 : Nat) - digitCount n = shift) :
    digitCount (n * 10 ^ shift.toNat / (10 ^ k * 10 ^ (-shift).toNat)) = p + 2 := by
  have leading := pow_le_of_pos positive
  have digits := (digitCount_le_iff (digitCount_pos n)).mp (Nat.le_refl _)
  have some_digit := digitCount_pos n
  have lower : 10 ^ (p + 1) ≤ n * 10 ^ shift.toNat / (10 ^ k * 10 ^ (-shift).toNat) := by
    rw [← Nat.pow_add, Nat.le_div_iff_mul_le (pow_ten_pos _), ← Nat.pow_add]
    calc 10 ^ (p + 1 + (k + (-shift).toNat))
        = 10 ^ (digitCount n - 1 + shift.toNat) := congrArg (10 ^ ·) (by omega)
      _ = 10 ^ (digitCount n - 1) * 10 ^ shift.toNat := Nat.pow_add ..
      _ ≤ n * 10 ^ shift.toNat := Nat.mul_le_mul_right _ leading
  have upper : n * 10 ^ shift.toNat / (10 ^ k * 10 ^ (-shift).toNat) < 10 ^ (p + 2) := by
    rw [← Nat.pow_add, Nat.div_lt_iff_lt_mul (pow_ten_pos _), ← Nat.pow_add]
    calc n * 10 ^ shift.toNat
        < 10 ^ digitCount n * 10 ^ shift.toNat := Nat.mul_lt_mul_of_pos_right digits (pow_ten_pos _)
      _ = 10 ^ (digitCount n + shift.toNat) := (Nat.pow_add ..).symm
      _ = 10 ^ (p + 2 + (k + (-shift).toNat)) := congrArg (10 ^ ·) (by omega)
  have := (lt_digitCount_iff (Nat.succ_pos p)).mpr lower
  have := (digitCount_le_iff (Nat.succ_pos (p + 1))).mpr upper
  omega

/-- The quotient of an integer with more digits than the precision keeps what the integer
reaches. -/
theorem reaches_quotient_pow {d : Nat} (positive : 0 < p) (nonzero : 0 < n.natAbs)
    (reached : 10 ^ d ≤ n.natAbs) :
    ((ofInt n).quotient p (ofInt (10 ^ k : Nat))).Reaches (d - k) := by
  have above : (d : Int) < digitCount n.natAbs + 0 :=
    Reaches.le_digitCount (x := ⟨n < 0, n.natAbs, 0⟩) ⟨d, reached, by simp⟩
  simp only [quotient, ofInt, Int.natAbs_natCast, digitCount_pow, sign_of_pow, Nat.pow_eq]
  generalize shift_eq : (p : Int) + 1 + (k + 1 : Nat) - digitCount n.natAbs = shift
  have digits := digitCount_shifted nonzero shift_eq
  generalize n.natAbs * 10 ^ shift.toNat = num at *
  generalize 10 ^ k * 10 ^ (-shift).toNat = den at *
  have longer : 10 ^ (p + 1) ≤ num / den := (lt_digitCount_iff (Nat.succ_pos p)).mp (by omega)
  have shifted : Reaches ⟨decide (n < 0), num / den, 0 - 0 - shift⟩ (d - k) :=
    ⟨p + 1, longer, by simp only; omega⟩
  split
  · refine Reaches.round positive ?_
    rw [Nat.div_one]
    exact (reaches_stripZeros ((pow_ten_pos _).trans_le longer) _).mpr shifted
  · exact shifted.round positive

/-- A quotient by a power of ten reaches no more than the power above all the digits of the
integer, moved by its zeros. -/
theorem le_of_reaches_quotient_pow {d : Nat} {t : Int} (positive : 0 < p)
    (below : n.natAbs < 10 ^ d)
    (reaches : ((ofInt n).quotient p (ofInt (10 ^ k : Nat))).Reaches t) : t ≤ d - k := by
  obtain zero | nonzero := Nat.eq_zero_or_pos n.natAbs
  · rw [quotient_pow_of_fits positive (zero ▸ pow_ten_pos p)] at reaches
    obtain ⟨a, reached, _⟩ := reaches
    have least := coefficient_stripZeros_le k ⟨n < 0, n.natAbs, -k⟩
    have := pow_ten_pos a
    simp only at least
    omega
  have some_digit : 0 < d := by
    refine Nat.pos_of_ne_zero ?_
    rintro rfl
    omega
  have short : digitCount n.natAbs ≤ d := (digitCount_le_iff some_digit).mpr below
  simp only [quotient, ofInt, Int.natAbs_natCast, digitCount_pow, sign_of_pow,
    Nat.pow_eq] at reaches
  generalize shift_eq : (p : Int) + 1 + (k + 1 : Nat) - digitCount n.natAbs = shift at reaches
  have digits := digitCount_shifted nonzero shift_eq
  generalize n.natAbs * 10 ^ shift.toNat = num at *
  generalize 10 ^ k * 10 ^ (-shift).toNat = den at *
  split at reaches
  · have longer : 10 ^ (p + 1) ≤ num / den := (lt_digitCount_iff (Nat.succ_pos p)).mp (by omega)
    have kept := digitCount_stripZeros_le (x := ⟨decide (n < 0), num / den, 0 - 0 - shift⟩)
      ((pow_ten_pos _).trans_le longer) shift.toNat
    have := le_of_reaches_round positive reaches
    rw [Nat.div_one] at this
    simp only at kept
    omega
  · have := le_of_reaches_round positive reaches
    omega

/-- A quotient of two digits more than the precision rounds up to a power of ten from half a last
place below it. -/
theorem reaches_round_iff {num den : Nat} {negative : Bool} {e : Int} (positive : 0 < p)
    (divisor : 0 < den) (digits : digitCount (num / den) = p + 2) :
    (round p negative num den e).Reaches (e + 2 + p) ↔
      (2 * 10 ^ p - 1) * (den * 10 ^ 2) ≤ 2 * num := by
  obtain ⟨m, even⟩ : ∃ m, 10 ^ p = 2 * m := ⟨5 * 10 ^ (p - 1), by
    rw [← Nat.mul_assoc, ← Nat.pow_succ', Nat.succ_eq_add_one, Nat.sub_add_cancel positive]⟩
  have excess : digitCount (num / den) - p = 2 := by omega
  have place : e + 2 + p = e + (2 : Nat) + (p : Nat) := rfl
  rw [reaches_round positive excess, reaches_of_exponent place, even,
    even_le_roundQuotient_iff (Nat.mul_pos divisor (by decide))]

/-- A quotient that is not shifted has two digits to round away. -/
theorem reaches_quotient_pow_of_digits {i : Nat} (positive : 0 < p) (nonzero : 0 < n.natAbs)
    (digits : digitCount n.natAbs = p + k + 2 + i) :
    ((ofInt n).quotient p (ofInt (10 ^ k : Nat))).Reaches (p + 2 + i) ↔
      (2 * 10 ^ p - 1) * (10 ^ k * 10 ^ i * 10 ^ 2) ≤ 2 * n.natAbs := by
  have shift : (p : Int) + 1 + (k + 1 : Nat) - digitCount n.natAbs = -(i : Nat) := by omega
  have unshifted : (-(i : Int)).toNat = 0 := by omega
  have longer := digitCount_shifted nonzero shift
  have place : (p : Int) + 2 + i = 0 - 0 - -(i : Nat) + 2 + p := by omega
  have divisor : 0 < 10 ^ k * 10 ^ i := Nat.mul_pos (pow_ten_pos k) (pow_ten_pos i)
  simp only [unshifted, Int.neg_neg, Int.toNat_natCast, Nat.pow_zero, Nat.mul_one] at longer
  simp only [quotient, ofInt, Int.natAbs_natCast, digitCount_pow, sign_of_pow, Nat.pow_eq, shift,
    unshifted, Int.neg_neg, Int.toNat_natCast, Nat.pow_zero, Nat.mul_one, stripZeros, place]
  generalize 10 ^ k * 10 ^ i = den at *
  split
  · rename_i exact_quotient
    have whole : n.natAbs = den * (n.natAbs / den) :=
      (Nat.mul_div_cancel' (Nat.dvd_of_mod_eq_zero exact_quotient)).symm
    rw [reaches_round_iff positive Nat.one_pos (by rwa [Nat.div_one]), Nat.one_mul, whole,
      Nat.mul_div_cancel_left _ divisor, Nat.mul_left_comm 2, Nat.mul_left_comm _ den,
      Nat.mul_le_mul_left_iff divisor]
  · exact reaches_round_iff positive divisor longer

/-- From where on the quotient of an integer by a power of ten rounds up to a power of ten. -/
theorem reaches_quotient_pow_iff {d : Nat} (positive : 0 < p) (places : p + k + 2 ≤ d) :
    ((ofInt n).quotient p (ofInt (10 ^ k : Nat))).Reaches (d - k) ↔
      (2 * 10 ^ p - 1) * 10 ^ (d - p) ≤ 2 * n.natAbs := by
  have whole : 10 ^ p * 10 ^ (d - p) = 10 ^ d := by
    rw [← Nat.pow_add, Nat.add_sub_cancel' (by omega)]
  have tenfold : 10 ^ d = 10 ^ (d - 1) * 10 := by
    rw [← Nat.pow_succ, Nat.succ_eq_add_one, Nat.sub_add_cancel (by omega)]
  have threshold : (2 * 10 ^ p - 1) * 10 ^ (d - p) = 2 * 10 ^ d - 10 ^ (d - p) := by
    rw [Nat.sub_mul, Nat.one_mul, Nat.mul_assoc, whole]
  obtain below | above := Nat.lt_or_ge n.natAbs (10 ^ (d - 1))
  · refine iff_of_false (fun reaches => ?_) ?_
    · have := le_of_reaches_quotient_pow positive below reaches
      omega
    · have : 10 ^ (d - p) ≤ 10 ^ d := Nat.pow_le_pow_right (by decide) (Nat.sub_le _ _)
      omega
  obtain between | reached := Nat.lt_or_ge n.natAbs (10 ^ d)
  · have digits : digitCount n.natAbs = d := by
      have upper := (digitCount_le_iff (show 0 < d by omega)).mpr between
      have lower := (lt_digitCount_iff (show 0 < d - 1 by omega)).mpr above
      omega
    obtain ⟨i, rfl⟩ := Nat.exists_eq_add_of_le places
    have divisor : 10 ^ k * 10 ^ i * 10 ^ 2 = 10 ^ (p + k + 2 + i - p) := by
      rw [← Nat.pow_add, ← Nat.pow_add]
      congr 1
      omega
    have place : ((p + k + 2 + i : Nat) : Int) - k = p + 2 + i := by omega
    rw [← divisor, place]
    exact reaches_quotient_pow_of_digits positive ((pow_ten_pos _).trans_le above) digits
  · have nonzero := (pow_ten_pos d).trans_le reached
    have := pow_ten_pos (d - p)
    exact iff_of_true (reaches_quotient_pow positive nonzero reached) (by omega)

/-- The quotient of an integer by a power of ten is refused from half a last place below the power
above the greatest exponent, moved by the zeros of the divisor. -/
theorem divide_pow_eq {nonzero : (ofInt (10 ^ k : Nat)).coefficient ≠ 0} (positive : 0 < p)
    (places : p + 2 ≤ greatestExponent + 1) :
    (ofInt n).divide p (ofInt (10 ^ k : Nat)) nonzero =
      if (2 * 10 ^ p - 1) * 10 ^ (greatestExponent + 1 + k - p) ≤ 2 * n.natAbs then
        .error .displayOverflow
      else .ok ((ofInt n).quotient p (ofInt (10 ^ k : Nat))) := by
  have place : (greatestExponent : Int) + 1 = (greatestExponent + 1 + k : Nat) - k := by omega
  have reaches := reaches_quotient_pow_iff (n := n) (k := k) (d := greatestExponent + 1 + k)
    positive (by omega)
  rw [← place] at reaches
  classical
  rw [divide, limited_eq]
  exact if_congr reaches rfl rfl

/-- An integer over a power of ten, brought to as many places, is the integer with its point moved
if it fits the precision, and is refused otherwise. -/
theorem quantize_quotient_pow (positive : 0 < p) :
    ((ofInt n).quotient p (ofInt (10 ^ k : Nat))).quantize p (-k) =
      if n.natAbs < 10 ^ p then .ok ⟨n < 0, n.natAbs, -k⟩ else .error .displayRange := by
  unfold quantize
  split
  · rename_i fits
    have same : (stripZeros k ⟨n < 0, n.natAbs, -k⟩).rescale (-k) = ⟨n < 0, n.natAbs, -k⟩ :=
      (rescale_stripZeros k (Int.le_refl _)).trans (rescale_self _)
    rw [quotient_pow_of_fits positive fits, same]
    exact if_pos ((digitCount_le_iff positive).mpr fits)
  · rename_i long
    have reached : 10 ^ p ≤ n.natAbs := Nat.le_of_not_lt long
    have reaches : ((ofInt n).quotient p (ofInt (10 ^ k : Nat))).Reaches (p - k) :=
      reaches_quotient_pow positive ((pow_ten_pos p).trans_le reached) reached
    have rescaled := reaches.pow_le_rescale (e := -k) (by omega)
    rw [show ((p : Int) - k - -k).toNat = p by omega] at rescaled
    exact if_neg (Nat.not_le.mpr ((lt_digitCount_iff positive).mpr rescaled))

end QuotientPow

end Decimal
end ExchangeFees

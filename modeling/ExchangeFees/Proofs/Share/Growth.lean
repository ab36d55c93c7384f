import ExchangeFees.Proofs.Share

/-! How floored shares grow with the amount. A share never falls and a lesser amount passes every
guard that a greater one passes. What is rounded off is less than one unit, so two shares together
are the share of both amounts or one unit less. What a share of one at most leaves never falls
either, and a share of more than one leaves nothing where it leaves anything at all. -/
namespace ExchangeFees.Ratio

variable {r : Ratio U128} {m n : Int}

theorem Takes.mono (takes : r.Takes n) (le : m ≤ n) : r.Takes m :=
  ⟨takes.1, Int.le_trans (Int.mul_le_mul_of_nonneg_right le r.numerator.nonneg) takes.2⟩

theorem floor_mono (r : Ratio U128) (le : m ≤ n) : r.floor m ≤ r.floor n := by
  have product := Int.mul_le_mul_of_nonneg_right le r.numerator.nonneg
  obtain zero | positive := Int.le_iff_eq_or_lt.mp r.denominator.nonneg
  · simp only [floor, ← zero, Int.ediv_zero]
    exact Int.le_refl 0
  · exact Int.ediv_le_ediv positive product

/-- A share is the whole part of the ratio. -/
theorem floor_bounds (positive : 0 < r.denominator.val) (n : Int) :
    r.floor n * r.denominator.val ≤ n * r.numerator.val ∧
      n * r.numerator.val < (r.floor n + 1) * r.denominator.val :=
  ⟨Int.ediv_mul_le _ (Int.ne_of_gt positive), Int.lt_ediv_add_one_mul_self _ positive⟩

theorem denominator_pos (nonzero : r.denominator.val ≠ 0) : 0 < r.denominator.val :=
  Int.lt_iff_le_and_ne.mpr ⟨r.denominator.nonneg, nonzero.symm⟩

/-- The share of a sum is the sum of the shares or one unit more. -/
theorem floor_add (nonzero : r.denominator.val ≠ 0) (m n : Int) :
    r.floor m + r.floor n ≤ r.floor (m + n) ∧ r.floor (m + n) ≤ r.floor m + r.floor n + 1 := by
  have positive := denominator_pos nonzero
  obtain ⟨low₁, high₁⟩ := floor_bounds positive m
  obtain ⟨low₂, high₂⟩ := floor_bounds positive n
  constructor
  · refine Int.le_ediv_of_mul_le positive ?_
    rw [Int.add_mul, Int.add_mul]
    omega
  · refine Int.le_of_lt_add_one (Int.ediv_lt_of_lt_mul positive ?_)
    have split : (r.floor m + r.floor n + 1 + 1) * r.denominator.val =
        (r.floor m + 1) * r.denominator.val + (r.floor n + 1) * r.denominator.val := by
      rw [← Int.add_mul]
      congr 1
      omega
    rw [Int.add_mul, split]
    omega

/-- A share of one at most grows by no more than the amount does. -/
theorem floor_le_add_sub (nonzero : r.denominator.val ≠ 0)
    (atMostOne : r.numerator.val ≤ r.denominator.val) (le : m ≤ n) :
    r.floor n ≤ r.floor m + (n - m) := by
  have positive := denominator_pos nonzero
  have whole : m + (n - m) = n := by omega
  have grown : (n - m) * r.numerator.val ≤ (n - m) * r.denominator.val :=
    Int.mul_le_mul_of_nonneg_left atMostOne (by omega)
  calc r.floor n = (m * r.numerator.val + (n - m) * r.numerator.val) / r.denominator.val := by
        rw [← Int.add_mul, whole]
        rfl
    _ ≤ (m * r.numerator.val + (n - m) * r.denominator.val) / r.denominator.val :=
        Int.ediv_le_ediv positive (by omega)
    _ = r.floor m + (n - m) := Int.add_mul_ediv_right _ _ nonzero

/-- A share of one at least takes all. -/
theorem le_floor (nonzero : r.denominator.val ≠ 0)
    (atLeastOne : r.denominator.val ≤ r.numerator.val) (nonneg : 0 ≤ n) : n ≤ r.floor n :=
  Int.le_ediv_of_mul_le (denominator_pos nonzero)
    (Int.mul_le_mul_of_nonneg_left atLeastOne nonneg)

/-- What a share leaves of the greater amount is no less than what it leaves of the lesser, if it
leaves anything of the greater at all. -/
theorem sub_floor_mono (nonzero : r.denominator.val ≠ 0) (nonneg : 0 ≤ m) (le : m ≤ n)
    (covered : r.floor n ≤ n) : m - r.floor m ≤ n - r.floor n := by
  by_cases atMostOne : r.numerator.val ≤ r.denominator.val
  · have grown := floor_le_add_sub nonzero atMostOne le
    omega
  · have all := le_floor nonzero (by omega) nonneg
    omega

end ExchangeFees.Ratio

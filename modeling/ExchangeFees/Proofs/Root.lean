import ExchangeFees.Proofs.Failure
import ExchangeFees.Root
import Mathlib.Analysis.SpecialFunctions.Pow.NthRootLemmas

/-! The iteration ends at the whole part of the root. Each number it visits is positive and, with
one added, above the root; the iteration stops at the first number that its step does not
lower, and such a number is no more than the root. -/
namespace ExchangeFees.Root

variable {n v x r : Nat}

theorem newton_eq (n v x : Nat) : newton n v x = ((n - 1) * x + v / x ^ (n - 1)) / n := rfl

/-- A step never leads below the whole part of the root. -/
theorem lt_newton_succ_pow (degree : 0 < n) (positive : 0 < x) : v < (newton n v x + 1) ^ n := by
  obtain ⟨m, rfl⟩ := Nat.exists_eq_add_one.mpr degree
  have bound := Nat.nthRoot.lt_pow_go_succ_aux (a := v) (n := m) (Nat.pos_iff_ne_zero.mp positive)
  rwa [newton_eq, Nat.add_sub_cancel, Nat.add_comm (m * x)]

theorem newton_pos (degree : 0 < n) (positive : 0 < x) (radicand : 0 < v) : 0 < newton n v x := by
  by_contra none
  have zero : newton n v x = 0 := by omega
  have bound := lt_newton_succ_pow (v := v) degree positive
  rw [zero, Nat.zero_add, Nat.one_pow] at bound
  omega

/-- A number that the step does not lower is no more than the root. -/
theorem pow_le_of_le_newton (degree : 0 < n) (kept : x ≤ newton n v x) : x ^ n ≤ v := by
  obtain ⟨m, rfl⟩ := Nat.exists_eq_add_one.mpr degree
  rw [newton_eq, Nat.le_div_iff_mul_le degree, Nat.add_sub_cancel] at kept
  have quotient : x ≤ v / x ^ m := by
    rw [Nat.mul_add, Nat.mul_one, Nat.mul_comm] at kept
    omega
  have product := Nat.mul_le_of_le_div _ _ _ quotient
  rwa [Nat.pow_succ, Nat.mul_comm]

theorem descend_bounds (degree : 0 < n) (radicand : 0 < v) (positive : 0 < x)
    (above : v < (x + 1) ^ n) : descend n v x ^ n ≤ v ∧ v < (descend n v x + 1) ^ n := by
  fun_induction descend n v x with
  | case1 x lower ih =>
    exact ih (newton_pos degree positive radicand) (lt_newton_succ_pow degree positive)
  | case2 x kept => exact ⟨pow_le_of_le_newton degree (Nat.le_of_not_lt kept), above⟩

theorem start_pos (n v : Nat) : 0 < start n v := Nat.pow_pos (by decide)

/-- The power of two that the iteration starts at exceeds the root. -/
theorem lt_start_pow (degree : 0 < n) : v < start n v ^ n := by
  have digits : v.log2 < (v.log2 + n) / n * n := by
    have whole := Nat.div_add_mod (v.log2 + n) n
    have part := Nat.mod_lt (v.log2 + n) degree
    rw [Nat.mul_comm] at whole
    omega
  calc v < 2 ^ (v.log2 + 1) := Nat.lt_log2_self
    _ ≤ 2 ^ ((v.log2 + n) / n * n) := Nat.pow_le_pow_right (by decide) digits
    _ = start n v ^ n := Nat.pow_mul 2 _ n

/-- The root is the greatest number whose power is at most the radicand. -/
theorem floorRoot_bounds (degree : 0 < n) (v : Nat) :
    floorRoot n v ^ n ≤ v ∧ v < (floorRoot n v + 1) ^ n := by
  unfold floorRoot
  split
  · rename_i itself
    simp only [Bool.or_eq_true, decide_eq_true_eq] at itself
    obtain small | rfl := itself
    · match v, small with
      | 0, _ => simp [Nat.pos_iff_ne_zero.mp degree]
      | 1, _ => simp [Nat.pos_iff_ne_zero.mp degree]
    · simp
  · rename_i large
    simp only [Bool.or_eq_true, decide_eq_true_eq, not_or, Nat.not_lt] at large
    split
    · rename_i short
      refine ⟨by simpa using Nat.le_of_succ_le large.1, ?_⟩
      calc v < 2 ^ (v.log2 + 1) := Nat.lt_log2_self
        _ ≤ 2 ^ n := Nat.pow_le_pow_right (by decide) short
    · have above : v < (start n v + 1) ^ n :=
        (lt_start_pow degree).trans_le (Nat.pow_le_pow_left (Nat.le_succ _) n)
      exact descend_bounds degree (by omega) (start_pos n v) above

theorem floorRoot_eq_iff (degree : 0 < n) : floorRoot n v = r ↔ r ^ n ≤ v ∧ v < (r + 1) ^ n := by
  obtain ⟨low, high⟩ := floorRoot_bounds degree v
  constructor
  · rintro rfl
    exact ⟨low, high⟩
  · rintro ⟨low', high'⟩
    exact (Nat.nthRoot_eq_of_le_of_lt low high).symm.trans (Nat.nthRoot_eq_of_le_of_lt low' high')

/-- An integer is the whole part of the root of a degree of another. -/
structure IsFloor (value degree root : Int) : Prop where
  degree_pos : 1 ≤ degree
  value_nonneg : 0 ≤ value
  root_nonneg : 0 ≤ root
  pow_le : root ^ degree.toNat ≤ value
  lt_pow : value < (root + 1) ^ degree.toNat

/-- A root is returned exactly if the degree is positive and the value not negative, and it is
then the whole part. -/
theorem ofInt_eq_ok {value degree root : Int} :
    ofInt value degree = .ok root ↔ IsFloor value degree root := by
  unfold ofInt
  split
  · rename_i low
    constructor
    · nofun
    · intro floor
      have := floor.degree_pos
      omega
  · rename_i positive
    split
    · rename_i negative
      constructor
      · nofun
      · intro floor
        have := floor.value_nonneg
        omega
    · rename_i nonneg
      obtain ⟨d, rfl⟩ := Int.eq_ofNat_of_zero_le (show 0 ≤ degree by omega)
      obtain ⟨v, rfl⟩ := Int.eq_ofNat_of_zero_le (show 0 ≤ value by omega)
      have degree : 0 < d := by omega
      rw [Except.ok.injEq]
      constructor
      · rintro rfl
        obtain ⟨low, high⟩ := floorRoot_bounds degree v
        exact ⟨by omega, by omega, by omega, mod_cast low, mod_cast high⟩
      · intro floor
        obtain ⟨r, rfl⟩ := Int.eq_ofNat_of_zero_le floor.root_nonneg
        have low := floor.pow_le
        have high := floor.lt_pow
        exact congrArg _ ((floorRoot_eq_iff degree).mpr ⟨mod_cast low, mod_cast high⟩)

/-- Every number that is not negative has a whole root of every positive degree. -/
theorem exists_isFloor {value degree : Int} (positive : 1 ≤ degree) (nonneg : 0 ≤ value) :
    ∃ root, IsFloor value degree root := by
  refine ⟨floorRoot degree.toNat value.toNat, ofInt_eq_ok.mp ?_⟩
  rw [ofInt, if_neg (Int.not_lt.mpr positive), if_neg (Int.not_lt.mpr nonneg)]

theorem IsFloor.le_value {value degree root : Int} (floor : IsFloor value degree root) :
    root ≤ value := by
  have degree_pos := floor.degree_pos
  have root_nonneg := floor.root_nonneg
  obtain rfl | positive : root = 0 ∨ 1 ≤ root := by omega
  · exact floor.value_nonneg
  · exact Int.le_trans (le_self_pow₀ positive (by omega)) floor.pow_le

/-- The whole root is the greatest number whose power is at most the radicand. -/
theorem IsFloor.le_iff {value degree root n : Int} (floor : IsFloor value degree root)
    (nonneg : 0 ≤ n) : n ≤ root ↔ n ^ degree.toNat ≤ value := by
  constructor
  · intro below
    exact Int.le_trans (pow_le_pow_left₀ nonneg below _) floor.pow_le
  · intro covered
    by_contra above
    have next : root + 1 ≤ n := by omega
    have root_nonneg := floor.root_nonneg
    have bound := pow_le_pow_left₀ (by omega) next degree.toNat
    have := floor.lt_pow
    omega

theorem IsFloor.mono {value₁ value₂ degree root₁ root₂ : Int}
    (floor₁ : IsFloor value₁ degree root₁) (floor₂ : IsFloor value₂ degree root₂)
    (le : value₁ ≤ value₂) : root₁ ≤ root₂ :=
  (floor₂.le_iff floor₁.root_nonneg).mpr (Int.le_trans floor₁.pow_le le)

theorem IsFloor.unique {value degree root₁ root₂ : Int} (floor₁ : IsFloor value degree root₁)
    (floor₂ : IsFloor value degree root₂) : root₁ = root₂ :=
  Int.le_antisymm (floor₁.mono floor₂ (Int.le_refl _)) (floor₂.mono floor₁ (Int.le_refl _))

/-- The root of a power is exact. -/
theorem isFloor_pow {degree n : Int} (positive : 1 ≤ degree) (nonneg : 0 ≤ n) :
    IsFloor (n ^ degree.toNat) degree n :=
  ⟨positive, pow_nonneg nonneg _, nonneg, Int.le_refl _,
    pow_lt_pow_left₀ (Int.lt_succ n) nonneg (by omega)⟩

/-- The bounds of a fourth root alone keep it from being negative. -/
theorem isFloor_four_iff {value root : Int} (nonneg : 0 ≤ value) :
    IsFloor value 4 root ↔ root ^ 4 ≤ value ∧ value < (root + 1) ^ 4 := by
  constructor
  · intro floor
    exact ⟨floor.pow_le, floor.lt_pow⟩
  · rintro ⟨low, high⟩
    refine ⟨by decide, nonneg, ?_, low, high⟩
    by_contra negative
    have farther : (-(root + 1)) ^ 4 ≤ (-root) ^ 4 := pow_le_pow_left₀ (by omega) (by omega) 4
    rw [Even.neg_pow (by decide), Even.neg_pow (by decide)] at farther
    omega

end ExchangeFees.Root

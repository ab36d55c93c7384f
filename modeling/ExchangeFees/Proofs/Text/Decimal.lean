import ExchangeFees.Binary64
import Mathlib.Algebra.Order.Ring.Nat
import Mathlib.Data.List.Basic

/-! Written numbers as texts. A number is written in digits, with a zero in front only if it is
zero, and its digits are taken back up to what follows them. What digits stand for is below the
power of ten of their count, so the limit on the count of digits is one on integers. -/
namespace ExchangeFees

namespace Text

theorem isDigit_digitChar {d : Nat} (small : d < 10) : (Nat.digitChar d).isDigit = true := by
  have all : ∀ d < 10, (Nat.digitChar d).isDigit = true := by decide
  exact all d small

theorem digits_ne_nil (n : Nat) : digits n ≠ [] := by
  unfold digits
  split <;> simp

theorem isDigit_digits (n : Nat) : ∀ c ∈ digits n, c.isDigit = true := by
  fun_induction digits n with
  | case1 n small => exact List.forall_mem_singleton.mpr (isDigit_digitChar small)
  | case2 n _ ih =>
    refine List.forall_mem_append.mpr ⟨ih, ?_⟩
    exact List.forall_mem_singleton.mpr (isDigit_digitChar (Nat.mod_lt _ (by decide)))

theorem isDigit_places (k n : Nat) : ∀ c ∈ places k n, c.isDigit = true := by
  induction k generalizing n with
  | zero => simp [places]
  | succ k ih =>
    refine List.forall_mem_append.mpr ⟨ih _, ?_⟩
    exact List.forall_mem_singleton.mpr (isDigit_digitChar (Nat.mod_lt _ (by decide)))

/-- Only zero is written with a zero in front. -/
theorem head?_digits_eq_zero (n : Nat) : (digits n).head? = some '0' ↔ n = 0 := by
  fun_induction digits n with
  | case1 n small =>
    have all : ∀ d < 10, Nat.digitChar d = '0' ↔ d = 0 := by decide
    simp [all n small]
  | case2 n large ih =>
    rw [List.head?_append_of_ne_nil _ (digits_ne_nil _), ih]
    omega

/-- A number is written by its digits before a point and the places after it. -/
theorem natOfDigits_digits_places (k n : Nat) :
    natOfDigits (digits (n / Nat.pow 10 k) ++ places k n) = n := by
  induction k generalizing n with
  | zero => simp [places]
  | succ k ih =>
    have split : n / Nat.pow 10 (k + 1) = n / 10 / Nat.pow 10 k := by
      rw [Nat.div_div_eq_div_mul]
      exact congrArg (n / ·) (Nat.mul_comm _ _)
    rw [places, ← List.append_assoc, natOfDigits_append_singleton, split, ih,
      toNat_digitChar (Nat.mod_lt _ (by decide))]
    omega

theorem exists_digitChar {c : Char} (digit : c.isDigit = true) :
    ∃ d, d < 10 ∧ c = Nat.digitChar d := by
  simp only [Char.isDigit, Bool.and_eq_true, decide_eq_true_eq, UInt32.le_iff_toNat_le] at digit
  obtain ⟨low, high⟩ : 48 ≤ c.toNat ∧ c.toNat ≤ 57 := digit
  refine ⟨c.toNat - 48, by omega, Char.toNat_inj.mp ?_⟩
  rw [Nat.toNat_digitChar_of_lt_ten (by omega)]
  omega

theorem natOfDigits_lt {ds : List Char} (isDigit : ∀ c ∈ ds, c.isDigit = true) :
    natOfDigits ds < 10 ^ ds.length := by
  -- Over the digits, with the number that those before them stand for.
  have read : ∀ v, ds.foldl (fun n d => 10 * n + (d.toNat - 48)) v < (v + 1) * 10 ^ ds.length := by
    induction ds with
    | nil => simp
    | cons c ds ih =>
      obtain ⟨first, rest⟩ := List.forall_mem_cons.mp isDigit
      obtain ⟨d, small, rfl⟩ := exists_digitChar first
      intro v
      rw [List.foldl_cons, toNat_digitChar small, List.length_cons, Nat.pow_succ,
        Nat.mul_comm (10 ^ _) 10, ← Nat.mul_assoc]
      exact Nat.lt_of_lt_of_le (ih rest _) (Nat.mul_le_mul_right _ (by omega))
  simpa [natOfDigits] using read 0

theorem length_digits_le_iff {n k : Nat} (positive : 0 < k) :
    (digits n).length ≤ k ↔ n < 10 ^ k := by
  fun_induction digits n generalizing k with
  | case1 n small =>
    have bound : n < 10 ^ k := Nat.lt_of_lt_of_le small (Nat.le_self_pow (Nat.ne_of_gt positive) 10)
    exact iff_of_true positive bound
  | case2 n large ih =>
    obtain ⟨k, rfl⟩ := Nat.exists_eq_add_one.mpr positive
    rw [List.length_append, List.length_singleton, Nat.add_le_add_iff_right, Nat.pow_succ,
      ← Nat.div_lt_iff_lt_mul (by decide)]
    cases k with
    | zero =>
      have some_digit := List.length_pos_iff.mpr (digits_ne_nil (n / 10))
      rw [Nat.pow_zero]
      omega
    | succ k => exact ih (Nat.succ_pos k)

theorem le_digitLimit {k : Nat} (few : k ≤ 4300) : k ≤ digitLimit := by
  unfold digitLimit
  exact few

theorem isShort_of_lt {n : Int} {k : Nat} (small : n.natAbs < 10 ^ k) (few : k ≤ digitLimit) :
    IsShort n :=
  Nat.lt_of_lt_of_le small (Nat.pow_le_pow_right (by decide) few)

theorem isShort_iff_length {n : Int} : IsShort n ↔ (digits n.natAbs).length ≤ digitLimit :=
  (length_digits_le_iff (le_digitLimit (by decide))).symm

theorem not_isShort_pow : ¬ IsShort (10 ^ digitLimit) := by
  rw [IsShort, Int.natAbs_pow]
  exact Nat.lt_irrefl _

theorem isShort_neg {n : Int} : IsShort (-n) ↔ IsShort n := by
  rw [IsShort, Int.natAbs_neg, IsShort]

end Text

namespace DecimalNumeral

/-- Digits are taken up to what is no digit. -/
theorem spanDigits_append {ds rest : List Char} (digits : ∀ c ∈ ds, c.isDigit = true)
    (stops : ∀ c, rest.head? = some c → c.isDigit = false) :
    spanDigits (ds ++ rest) = (ds, rest) := by
  have none : rest.takeWhile Char.isDigit = [] ∧ rest.dropWhile Char.isDigit = rest := by
    cases rest with
    | nil => exact ⟨rfl, rfl⟩
    | cons c rest => simp [stops c rfl]
  rw [spanDigits, List.takeWhile_append_of_pos digits, List.dropWhile_append_of_pos digits, none.1,
    none.2, List.append_nil]

end DecimalNumeral
end ExchangeFees

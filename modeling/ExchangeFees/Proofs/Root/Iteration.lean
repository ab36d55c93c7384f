import ExchangeFees.Proofs.Checked.Chain

/-! The iteration for the root as a run of single rounds. A round divides by the degree and by a
power of the number it is at, and goes on only to a lesser number. From every positive number there
is exactly one run; it divides by zero nowhere and has an end, which from the power of two that the
iteration starts at is the whole part of the root. -/
namespace ExchangeFees.Root

/-- The two numbers that a round at `x` divides by. -/
structure Divides (n x : Nat) : Prop where
  degree : n ≠ 0
  power : x ^ (n - 1) ≠ 0

/-- A run of the iteration from one number to the one it ends at. A run whose next round would
divide by zero has no end. -/
inductive Ends (n v : Nat) : Nat → Nat → Prop where
  | kept {x} (divides : Divides n x) (kept : x ≤ newton n v x) : Ends n v x x
  | lowered {x r} (divides : Divides n x) (lower : newton n v x < x)
      (rest : Ends n v (newton n v x) r) : Ends n v x r

/-- How the root is found: a number below two and a root of degree one are the number itself, and
everything else is left to the iteration. -/
inductive Finds (n v : Nat) : Nat → Prop where
  | itself (trivially : v < 2 ∨ n = 1) : Finds n v v
  | iterated {r} (radicand : 2 ≤ v) (degree : n ≠ 1) (ends : Ends n v (start n v) r) : Finds n v r

variable {n v x r s : Nat}

theorem Ends.unique (ends : Ends n v x r) (other : Ends n v x s) : r = s := by
  induction ends with
  | kept divides kept =>
    cases other with
    | kept => rfl
    | lowered _ lower => exact absurd lower (Nat.not_lt.mpr kept)
  | lowered divides lower rest ih =>
    cases other with
    | kept _ kept => exact absurd lower (Nat.not_lt.mpr kept)
    | lowered _ _ rest => exact ih rest

theorem divides (degree : 0 < n) (positive : 0 < x) : Divides n x :=
  ⟨Nat.pos_iff_ne_zero.mp degree, Nat.pos_iff_ne_zero.mp (Nat.pow_pos positive)⟩

/-- Numbers stay positive, so that every round can divide. -/
theorem ends_descend (degree : 0 < n) (radicand : 0 < v) (positive : 0 < x) :
    Ends n v x (descend n v x) := by
  fun_induction descend n v x with
  | case1 x lower ih =>
    exact .lowered (divides degree positive) lower (ih (newton_pos degree positive radicand))
  | case2 x kept => exact .kept (divides degree positive) (Nat.le_of_not_lt kept)

/-- The degrees that are spared the iteration are those at which it ends at one. -/
theorem floorRoot_eq_descend (degree : 0 < n) (radicand : 0 < v) :
    floorRoot n v = descend n v (start n v) := by
  refine (floorRoot_eq_iff degree).mpr (descend_bounds degree radicand (start_pos n v) ?_)
  exact (lt_start_pow degree).trans_le (Nat.pow_le_pow_left (Nat.le_succ _) n)

theorem floorRoot_of_trivial (trivially : v < 2 ∨ n = 1) : floorRoot n v = v :=
  if_pos (by simpa using trivially)

theorem finds_iff (degree : 0 < n) : Finds n v r ↔ r = floorRoot n v := by
  constructor
  · intro finds
    cases finds with
    | itself trivially => exact (floorRoot_of_trivial trivially).symm
    | iterated radicand _ ends =>
      rw [floorRoot_eq_descend degree (by omega)]
      exact ends.unique (ends_descend degree (by omega) (start_pos n v))
  · rintro rfl
    by_cases trivially : v < 2 ∨ n = 1
    · rw [floorRoot_of_trivial trivially]
      exact .itself trivially
    · rw [not_or, Nat.not_lt] at trivially
      rw [floorRoot_eq_descend degree (by omega)]
      exact .iterated trivially.1 trivially.2
        (ends_descend degree (by omega) (start_pos n v))

theorem ofInt_natCast (degree : 0 < n) (v : Nat) : ofInt v n = .ok (floorRoot n v) := by
  rw [ofInt, if_neg (by omega), if_neg (by omega)]
  rfl

theorem ofInt_of_negative {value degree : Int} (positive : 1 ≤ degree) (negative : value < 0) :
    ofInt value degree = .error (.naming value (.arithmetic (.negativeRadicand value))) := by
  rw [ofInt, if_neg (Int.not_lt.mpr positive), if_pos negative]

/-- A number that is not negative has a root of every positive degree, which is found without a
division by zero and is the only number whose power is at most the radicand while that of the next
is above it. Any other degree and any negative number fail by arithmetic, unless they are too long
to be written. So a checked integer that is not negative has a root of every positive degree. -/
theorem finds_whole_root (value degree : Int) :
    (1 ≤ degree → 0 ≤ value → ∃ root : Nat,
      (∀ r, Finds degree.toNat value.toNat r ↔ r = root) ∧ ofInt value degree = .ok root ∧
        ∀ r : Int, (0 ≤ r ∧ r ^ degree.toNat ≤ value ∧ value < (r + 1) ^ degree.toNat) ↔
          r = root) ∧
    (degree < 1 → ofInt value degree =
      .error (if Text.IsShort degree then .arithmetic (.rootDegree degree) else .longInteger)) ∧
    (1 ≤ degree → value < 0 → ofInt value degree =
      .error (if Text.IsShort value then .arithmetic (.negativeRadicand value) else .longInteger)) ∧
    ∀ (w : Width) (a : Checked w), 1 ≤ degree →
      w = .u64 ∨ w = .u128 ∨ 0 ≤ a.val → ∃ c, a.rootOf (.int degree) = .ok c := by
  refine ⟨?found, ?degree, ?radicand, ?checked⟩
  case found =>
    intro positive nonneg
    obtain ⟨n, rfl⟩ := Int.eq_ofNat_of_zero_le (show 0 ≤ degree by omega)
    obtain ⟨v, rfl⟩ := Int.eq_ofNat_of_zero_le nonneg
    have degree : 0 < n := by omega
    have returned := ofInt_natCast degree v
    refine ⟨floorRoot n v, fun _ => finds_iff degree, returned, fun r => ?_⟩
    have floor : IsFloor v n (floorRoot n v) := ofInt_eq_ok.mp returned
    constructor
    · rintro ⟨nonneg, low, high⟩
      have other : IsFloor v n r := ⟨by omega, by omega, nonneg, low, high⟩
      exact other.unique floor
    · rintro rfl
      exact ⟨floor.root_nonneg, floor.pow_le, floor.lt_pow⟩
  case degree => exact fun low => if_pos low
  case radicand => exact ofInt_of_negative
  case checked =>
    intro w a positive unsigned
    have nonneg : 0 ≤ a.val := by
      obtain rfl | rfl | nonneg := unsigned
      · exact a.lo_le
      · exact a.lo_le
      · exact nonneg
    obtain ⟨root, floor⟩ := exists_isFloor positive nonneg
    obtain ⟨c, rfl⟩ : ∃ c : Checked w, c.val = root :=
      Checked.exists_val.mpr ⟨Int.le_trans w.lo_nonpos floor.root_nonneg,
        Int.le_trans floor.le_value a.le_hi⟩
    exact ⟨c, Checked.rootOf_eq_ok.mpr ⟨degree, rfl, floor⟩⟩

/-- The cube root of 26 is found to be 2, and minus one has no square root. -/
theorem cube_root_of_twenty_six :
    ((1 : Int) ≤ 3 ∧ (0 : Int) ≤ 26) ∧ ofInt 26 3 = .ok 2 ∧ (∀ r, Finds 3 26 r ↔ r = 2) ∧
      ofInt (-1) 2 = .error (.arithmetic (.negativeRadicand (-1))) := by
  obtain ⟨root, finds, returned, unique⟩ := (finds_whole_root 26 3).1 (by decide) (by decide)
  obtain rfl : 2 = root := by exact_mod_cast (unique 2).mp (by decide)
  have short : Text.IsShort (-1) :=
    Text.isShort_of_lt (k := 1) (by decide) (Text.le_digitLimit (by decide))
  have negative := (finds_whole_root (-1) 2).2.2.1 (by decide) (by decide)
  rw [if_pos short] at negative
  exact ⟨⟨by decide, by decide⟩, returned, finds, negative⟩

/-- A negative radicand with a digit more than are written is refused, and not by arithmetic. -/
theorem long_radicand_unnamed :
    -(10 ^ Text.digitLimit : Int) < 0 ∧
      ofInt (-(10 ^ Text.digitLimit)) 2 = .error .longInteger := by
  have negative : -(10 ^ Text.digitLimit : Int) < 0 := Int.neg_neg_of_pos (pow_pos (by decide) _)
  refine ⟨negative, ?_⟩
  rw [ofInt_of_negative (by decide) negative, Error.naming_of_long]
  rw [Text.isShort_neg]
  exact Text.not_isShort_pow

end ExchangeFees.Root

import ExchangeFees.Checked.Operand
import ExchangeFees.Proofs.Failure
import ExchangeFees.Proofs.Text.Decimal
import ExchangeFees.Value.Integer

/-! What checked operations return. An operation returns a value of a width exactly if the
value is the exact result, since a value of a width is in its bounds; every operation that
fails does so by arithmetic. Values of a width have few digits, so only an integer that is given
can be too long to be named by a failure. -/
namespace ExchangeFees

namespace Width

/-- The integers that a width holds. -/
structure Holds (w : Width) (n : Int) : Prop where
  lo_le : w.lo ≤ n
  le_hi : n ≤ w.hi

theorem i128_hi_le : i128.hi ≤ u128.hi := by decide

theorem i128_lo_eq : i128.lo = -i128.hi - 1 := by decide

theorem i128_holds {n : Int} (nonneg : 0 ≤ n) : i128.Holds n ↔ n ≤ i128.hi :=
  ⟨fun held => held.le_hi, fun fits => ⟨Int.le_trans i128.lo_nonpos nonneg, fits⟩⟩

theorem holds_zero (w : Width) : w.Holds 0 := ⟨w.lo_nonpos, w.hi_nonneg⟩

theorem Holds.isShort {w : Width} {n : Int} (held : w.Holds n) : Text.IsShort n := by
  have low : -(10 ^ 39 : Nat) < w.lo := by cases w <;> decide
  have high : w.hi < (10 ^ 39 : Nat) := by cases w <;> decide
  have := held.lo_le
  have := held.le_hi
  exact Text.isShort_of_lt (k := 39) (by omega) (Text.le_digitLimit (by decide))

end Width

namespace Checked

variable {v w : Width}

theorem holds (c : Checked w) : w.Holds c.val := ⟨c.lo_le, c.le_hi⟩

theorem isShort (c : Checked w) : Text.IsShort c.val := c.holds.isShort

theorem nonneg (a : U128) : 0 ≤ a.val := a.lo_le

theorem exists_val {n : Int} : (∃ c : Checked w, c.val = n) ↔ w.Holds n := by
  constructor
  · rintro ⟨c, rfl⟩
    exact c.holds
  · intro held
    exact ⟨⟨n, held.lo_le, held.le_hi⟩, rfl⟩

/-- What an amount covers is an amount. -/
theorem holds_of_le (a : U128) {n : Int} (nonneg : 0 ≤ n) (covered : n ≤ a.val) :
    Width.u128.Holds n :=
  ⟨nonneg, Int.le_trans covered a.le_hi⟩

theorem exists_le (a : U128) {n : Int} (nonneg : 0 ≤ n) (covered : n ≤ a.val) :
    ∃ c : U128, c.val = n :=
  exists_val.mpr (a.holds_of_le nonneg covered)

section Within

variable {n : Int} {failure : Error}

theorem within_eq_ok {c : Checked w} : within w n failure = .ok c ↔ c.val = n := by
  unfold within
  split
  · rw [Except.ok.injEq]
    constructor
    · rintro rfl
      rfl
    · intro same
      exact Checked.ext same.symm
  · rename_i outside
    constructor
    · intro returned
      cases returned
    · rintro rfl
      exact absurd ⟨c.lo_le, c.le_hi⟩ outside

theorem within_eq_error {e : Error} :
    within w n failure = .error e ↔ ¬ w.Holds n ∧ e = failure := by
  unfold within
  split
  · rename_i held
    constructor
    · intro failed
      cases failed
    · intro outside
      exact absurd ⟨held.1, held.2⟩ outside.1
  · rename_i outside
    rw [Except.error.injEq, eq_comm]
    exact (and_iff_right fun held => outside ⟨held.lo_le, held.le_hi⟩).symm

theorem within_outcome (w : Width) (n : Int) (failure : Error) :
    (∃ c : Checked w, within w n failure = .ok c ∧ c.val = n) ∨
      ¬ w.Holds n ∧ within w n failure = .error failure := by
  cases outcome : within w n failure with
  | ok c => exact .inl ⟨c, rfl, within_eq_ok.mp outcome⟩
  | error e =>
    obtain ⟨outside, rfl⟩ := within_eq_error.mp outcome
    exact .inr ⟨outside, rfl⟩

end Within

theorem of_int_eq_ok {n : Int} {c : Checked w} : of w (.int n) = .ok c ↔ c.val = n := within_eq_ok

theorem cast_eq_ok {a : Checked v} {c : Checked w} : a.cast w = .ok c ↔ c.val = a.val :=
  within_eq_ok

theorem add_eq_ok {a c : Checked w} {b : Int} : a.add b = .ok c ↔ c.val = a.val + b :=
  within_eq_ok

theorem sub_eq_ok {a c : Checked w} {b : Int} : a.sub b = .ok c ↔ c.val = a.val - b :=
  within_eq_ok

theorem add_zero (a : Checked w) : a.add 0 = .ok a := add_eq_ok.mpr (Int.add_zero _).symm

theorem sub_zero (a : Checked w) : a.sub 0 = .ok a := sub_eq_ok.mpr (Int.sub_zero _).symm

theorem cast_eq_error {a : Checked v} {e : Error} :
    a.cast w = .error e ↔ ¬ w.Holds a.val ∧ e = .arithmetic (.lossyCast a.val w) := by
  rw [cast, castInt, Error.naming_of_short a.isShort]
  exact within_eq_error

theorem add_eq_error {a : Checked w} {b : Int} {e : Error} :
    a.add b = .error e ↔ ¬ w.Holds (a.val + b) ∧ e = .arithmetic (.overflow w (a.val + b)) :=
  within_eq_error

/-- An integer too long to be written is refused without its name. -/
theorem ofInt_of_long {n : Int} (long : ¬ Text.IsShort n) : ofInt w n = .error .longInteger :=
  within_eq_error.mpr ⟨fun held => long held.isShort, (Error.naming_of_long long _).symm⟩

theorem castInt_val (c : Checked w) : castInt c.val w = .ok c := within_eq_ok.mpr rfl

theorem castInt_outcome {n : Int} (held : v.Holds n) (w : Width) :
    (∃ c : Checked w, castInt n w = .ok c ∧ c.val = n) ∨
      ¬ w.Holds n ∧ castInt n w = .error (.arithmetic (.lossyCast n w)) := by
  rw [castInt, Error.naming_of_short held.isShort]
  exact within_outcome w n _

theorem add_outcome (a : Checked w) (b : Int) :
    (∃ c : Checked w, a.add b = .ok c ∧ c.val = a.val + b) ∨
      ¬ w.Holds (a.val + b) ∧ a.add b = .error (.arithmetic (.overflow w (a.val + b))) :=
  within_outcome w (a.val + b) _

theorem sub_outcome (a : Checked w) (b : Int) :
    (∃ c : Checked w, a.sub b = .ok c ∧ c.val = a.val - b) ∨
      ¬ w.Holds (a.val - b) ∧ a.sub b = .error (.arithmetic (.overflow w (a.val - b))) :=
  within_outcome w (a.val - b) _

theorem mul_eq_ok {a c : Checked w} {b : Int} : a.mul b = .ok c ↔ c.val = a.val * b :=
  within_eq_ok

theorem div_eq_ok {a c : Checked w} {b : Int} :
    a.div b = .ok c ↔ b ≠ 0 ∧ c.val = a.val.tdiv b := by
  unfold div
  split
  · rename_i zero
    simp [zero]
  · rename_i nonzero
    exact within_eq_ok.trans (and_iff_right nonzero).symm

theorem val_min (a b : Checked w) : (a.min b).val = Min.min a.val b.val := by
  unfold min
  split <;> omega

theorem val_max (a b : Checked w) : (a.max b).val = Max.max a.val b.val := by
  unfold max
  split <;> omega

@[simp] theorem val_zero : (zero : Checked w).val = 0 := rfl

theorem max_zero (a : U128) : a.max .zero = a := if_pos a.nonneg

theorem zero_min (a : U128) : (zero : U128).min a = .zero := if_pos a.nonneg

/-- A width takes the integers within its bounds and its own values. -/
theorem of_eq_ok {x : Value} {c : Checked w} :
    of w x = .ok c ↔ x = .int c.val ∨ x = c.toValue := by
  cases x with
  | int n =>
    rw [of_int_eq_ok, eq_comm]
    simp [toValue]
  | record r =>
    cases r with
    | checked u d =>
      by_cases same : u = w
      · subst same
        simp [of, toValue, Checked.ext_iff]
      · simp [of, toValue, same]
    | _ => simp [of, construct, toValue]
  | _ => simp [of, construct, toValue]

/-- A value that a width takes stands for the integer that is taken. -/
theorem toInteger_of {x : Value} {c : Checked w} (taken : of w x = .ok c) :
    x.toInteger = .ok c.val := by
  obtain rfl | rfl := of_eq_ok.mp taken
  · rfl
  · rfl

theorem of_toValue (c : Checked w) : of w c.toValue = .ok c := of_eq_ok.mpr (.inr rfl)

theorem of_val (c : Checked w) : of w (.int c.val) = .ok c := of_eq_ok.mpr (.inl rfl)

theorem operand_toValue (c : Checked w) : operand w c.toValue = .ok c.val := by
  simp [operand, toValue]

theorem operand_val (c : Checked w) : operand w (.int c.val) = .ok c.val := by
  have taken : ofInt w c.val = .ok c := of_val c
  simp only [operand, taken]
  rfl

/-- Between values of one width the selections always return. -/
theorem maxOf_toValue {w : Width} (a b : Checked w) : a.maxOf b.toValue = .ok (a.max b) := by
  simp [maxOf, operand, peer, toValue, bind, Except.bind, pure, Except.pure]

theorem minOf_toValue {w : Width} (a b : Checked w) : a.minOf b.toValue = .ok (a.min b) := by
  simp [minOf, operand, peer, toValue, bind, Except.bind, pure, Except.pure]

/-- The greater of two amounts covers all that the second does. -/
theorem exists_max_sub (a b : U128) {n : Int} (nonneg : 0 ≤ n) (covered : n ≤ b.val) :
    ∃ left, (a.max b).sub n = .ok left := by
  have bound := val_max a b
  obtain ⟨left, value⟩ :=
    (a.max b).exists_le (n := (a.max b).val - n) (by omega) (by omega)
  exact ⟨left, sub_eq_ok.mpr value⟩

/-- The difference of two amounts that fit the signed width fits it too. -/
theorem exists_signed_sub {a b : U128} {m n : I128} (left : a.cast .i128 = .ok m)
    (right : b.cast .i128 = .ok n) : ∃ d, m.sub n.val = .ok d := by
  have leftVal := cast_eq_ok.mp left
  have rightVal := cast_eq_ok.mp right
  have := a.nonneg
  have := b.nonneg
  have := m.le_hi
  have := n.le_hi
  have := Width.i128_lo_eq
  obtain ⟨d, value⟩ := exists_val.mpr
    (⟨by omega, by omega⟩ : Width.i128.Holds (m.val - n.val))
  exact ⟨d, sub_eq_ok.mpr value⟩

section Failing

variable {faults : Error → Prop} (arithmetic : ∀ fault, faults (.arithmetic fault))

theorem within_failsOnly {failure : Error} (fault : faults failure) (w : Width) (n : Int) :
    FailsOnly faults (within w n failure) := by
  unfold within
  split
  · exact .ok _
  · exact .error fault

include arithmetic

/-- The result of an operation, among any failures that have arithmetic among them. -/
theorem ofResult_failsOnly (w : Width) (n : Int) : FailsOnly faults (ofResult w n) :=
  within_failsOnly (arithmetic _) w n

theorem ofInt_failsOnly (w : Width) {n : Int} (long : ¬ Text.IsShort n → faults .longInteger) :
    FailsOnly faults (ofInt w n) :=
  within_failsOnly (Error.naming_fails arithmetic long _) w n

theorem castInt_failsOnly {n : Int} (long : ¬ Text.IsShort n → faults .longInteger) (w : Width) :
    FailsOnly faults (castInt n w) :=
  within_failsOnly (Error.naming_fails arithmetic long _) w n

theorem cast_failsOnly (a : Checked v) (w : Width) : FailsOnly faults (a.cast w) :=
  castInt_failsOnly arithmetic (fun long => absurd a.isShort long) w

theorem div_failsOnly (a : Checked w) (b : Int) : FailsOnly faults (a.div b) := by
  unfold div
  split
  · exact .error (arithmetic _)
  · exact ofResult_failsOnly arithmetic w _

theorem rootInt_failsOnly {value degree : Int}
    (longDegree : degree < 1 → ¬ Text.IsShort degree → faults .longInteger)
    (longValue : value < 0 → ¬ Text.IsShort value → faults .longInteger) :
    FailsOnly faults (Root.ofInt value degree) := by
  unfold Root.ofInt
  split
  · rename_i low
    exact .error (Error.naming_fails arithmetic (longDegree low) _)
  · split
    · rename_i negative
      exact .error (Error.naming_fails arithmetic (longValue negative) _)
    · exact .ok _

theorem root_failsOnly (a : Checked w) {degree : Int}
    (long : degree < 1 → ¬ Text.IsShort degree → faults .longInteger) :
    FailsOnly faults (a.root degree) := by
  refine FailsOnly.bind ?_ fun _ => ofResult_failsOnly arithmetic w _
  exact rootInt_failsOnly arithmetic long fun _ long => absurd a.isShort long

end Failing

end Checked
end ExchangeFees

import ExchangeFees.Proofs.Reward
import ExchangeFees.Proofs.Root

/-! The filler's reward in closed form. The reward by age is the whole fourth root of the scaled
age times the lower bound, cut by the root of the scale; scaling, taking the root and cutting never
fail, so it is defined exactly if the timestamps are, the age is not negative and the one product
fits. The reward is the lesser of this and the share of the fee that caps it. -/
namespace ExchangeFees

theorem Checked.root_eq_ok {w : Width} {a c : Checked w} {degree : Int} :
    a.root degree = .ok c ↔ Root.IsFloor a.val degree c.val := by
  simp only [root, bind_eq_ok, Root.ofInt_eq_ok, ofResult, within_eq_ok]
  constructor
  · rintro ⟨root, floor, value⟩
    exact value ▸ floor
  · intro floor
    exact ⟨c.val, floor, rfl⟩

/-- Timestamps have an age exactly if their difference is a timestamp that is not negative. -/
theorem age_eq_ok {orderTs now : I64} {ticks : U128} :
    age orderTs now = .ok ticks ↔ 0 ≤ now.val - orderTs.val ∧
      now.val - orderTs.val ≤ Width.i64.hi ∧ ticks.val = max (now.val - orderTs.val) 1 := by
  simp only [age, bind_eq_ok, pure_eq_ok, Checked.sub_eq_ok, Checked.cast_eq_ok]
  constructor
  · rintro ⟨signed, difference, elapsed, moved, rfl⟩
    have nonneg := elapsed.nonneg
    have fits := signed.le_hi
    refine ⟨by omega, by omega, ?_⟩
    rw [Checked.val_max, moved, difference]
    rfl
  · rintro ⟨nonneg, fits, value⟩
    obtain ⟨signed, difference⟩ : ∃ d : I64, d.val = now.val - orderTs.val :=
      Checked.exists_val.mpr ⟨Int.le_trans (by decide) nonneg, fits⟩
    obtain ⟨elapsed, moved⟩ : ∃ d : U128, d.val = signed.val :=
      Checked.exists_val.mpr ⟨difference ▸ nonneg, Int.le_trans signed.le_hi (by decide)⟩
    refine ⟨signed, difference, elapsed, moved, Checked.ext ?_⟩
    rw [Checked.val_max, moved, difference, value]
    rfl

/-- An age of timestamps always fits once scaled, and what fits has a root. -/
theorem exists_root_of_age {orderTs now : I64} {ticks : U128} (aged : age orderTs now = .ok ticks) :
    ∃ scaled root, ticks.mul ageScale = .ok scaled ∧ scaled.root 4 = .ok root := by
  obtain ⟨nonneg, fits, ticksVal⟩ := age_eq_ok.mp aged
  have large : 1 ≤ Width.i64.hi := by decide
  have scaledFits : ticks.val * ageScale ≤ Width.u128.hi :=
    Int.le_trans (Int.mul_le_mul_of_nonneg_right (by omega) (by decide))
      (show Width.i64.hi * ageScale ≤ Width.u128.hi by decide)
  obtain ⟨scaled, scaledVal⟩ : ∃ c : U128, c.val = ticks.val * ageScale :=
    Checked.exists_val.mpr ⟨Int.mul_nonneg ticks.nonneg (by decide), scaledFits⟩
  obtain ⟨root, floor⟩ := Root.exists_isFloor (show (1 : Int) ≤ 4 by decide) scaled.nonneg
  obtain ⟨rooted, rfl⟩ := scaled.exists_le floor.root_nonneg floor.le_value
  exact ⟨scaled, rooted, Checked.mul_eq_ok.mpr scaledVal, Checked.root_eq_ok.mpr floor⟩

namespace FillerTerms

/-- The exact condition under which the reward by age is defined, with the whole fourth root of
the scaled age. -/
structure Times (t : FillerTerms U128) (orderTs now root : Int) : Prop where
  order_held : Width.i64.Holds orderTs
  now_held : Width.i64.Holds now
  age_nonneg : 0 ≤ now - orderTs
  age_fits : now - orderTs ≤ Width.i64.hi
  floor : Root.IsFloor (max (now - orderTs) 1 * ageScale) 4 root
  product : root * t.lowerBound.val ≤ Width.u128.hi

/-- The reward by age, off the whole root of the scaled age. -/
def byAge (t : FillerTerms U128) (root : Int) : Int := root * t.lowerBound.val / ageRootScale

variable {t : FillerTerms U128}

/-- One tick after the order the root is that of the scale. -/
theorem times_one_tick (product : ageRootScale * t.lowerBound.val ≤ Width.u128.hi) :
    t.Times 0 1 ageRootScale :=
  ⟨⟨by decide, by decide⟩, ⟨by decide, by decide⟩, by decide, by decide,
    ⟨by decide, by decide, by decide, by decide, by decide⟩, product⟩

theorem Times.byAge_held {orderTs now root : Int} (times : t.Times orderTs now root) :
    Width.u128.Holds (t.byAge root) := by
  have product := Int.mul_nonneg times.floor.root_nonneg t.lowerBound.nonneg
  exact ⟨Int.ediv_nonneg product (by decide),
    Int.le_trans (Int.ediv_le_self _ product) times.product⟩

/-- Of all steps to the reward by age, only the product with the lower bound can fail once there
is an age. -/
theorem timeReward_plain_eq_ok {orderTs now : I64} {c : U128} :
    (t.map .plain).timeReward orderTs now = .ok c ↔
      ∃ root, t.Times orderTs.val now.val root ∧ c.val = t.byAge root := by
  have bound : Checked.operand .u128 (t.map Term.plain).lowerBound.toValue =
      .ok t.lowerBound.val := Checked.operand_val t.lowerBound
  simp only [timeReward, bind_eq_ok, age_eq_ok, bound, Checked.mul_eq_ok, Checked.root_eq_ok,
    Checked.div_eq_ok, Except.ok.injEq, exists_eq_left']
  constructor
  · rintro ⟨ticks, ⟨nonneg, fits, ticksVal⟩, scaled, scaledVal, root, floor, product, exact, -,
      quotient⟩
    rw [scaledVal, ticksVal] at floor
    refine ⟨root.val, ⟨⟨orderTs.lo_le, orderTs.le_hi⟩, ⟨now.lo_le, now.le_hi⟩, nonneg, fits,
      floor, exact ▸ product.le_hi⟩, ?_⟩
    rw [quotient, Int.tdiv_eq_ediv_of_nonneg product.nonneg, exact]
    rfl
  · rintro ⟨root, times, value⟩
    have nonneg := times.age_nonneg
    have fits := times.age_fits
    have large : 1 ≤ Width.i64.hi := by decide
    obtain ⟨ticks, ticksVal⟩ : ∃ c : U128, c.val = max (now.val - orderTs.val) 1 :=
      Checked.exists_val.mpr ⟨by simp only [Width.lo]; omega, Int.le_trans (by omega)
        (show Width.i64.hi ≤ Width.u128.hi by decide)⟩
    have aged := age_eq_ok.mpr ⟨nonneg, fits, ticksVal⟩
    obtain ⟨scaled, rooted, multiplied, taken⟩ := exists_root_of_age aged
    have scaledVal := Checked.mul_eq_ok.mp multiplied
    have floor := Checked.root_eq_ok.mp taken
    obtain rfl : rooted.val = root := floor.unique (by rw [scaledVal, ticksVal]; exact times.floor)
    obtain ⟨product, productVal⟩ : ∃ c : U128, c.val = rooted.val * t.lowerBound.val :=
      Checked.exists_val.mpr ⟨Int.mul_nonneg rooted.nonneg t.lowerBound.nonneg, times.product⟩
    refine ⟨ticks, ⟨nonneg, fits, ticksVal⟩, scaled, scaledVal, rooted, floor, product, productVal,
      by decide, ?_⟩
    rw [value, Int.tdiv_eq_ediv_of_nonneg product.nonneg, productVal]
    rfl

theorem payout_plain_iff {fee r : U128} {orderTs now : Int} :
    ((t.map .plain).payout fee (.int orderTs) (.int now)).result = .ok r ↔
      t.reward.Takes fee.val ∧ ∃ root, t.Times orderTs now root ∧
        r.val = min (t.reward.floor fee.val) (t.byAge root) := by
  have sized : ∀ c, (t.map Term.plain).sizeReward fee = .ok c ↔
      t.reward.Takes fee.val ∧ c.val = t.reward.floor fee.val := fun c => Ratio.share_plain_eq_ok
  simp only [payout, Traced.result_bind, Traced.result_liftM, Traced.result_log, Traced.result_pure,
    bind_eq_ok, Except.ok.injEq, sized, Checked.of_int_eq_ok, timeReward_plain_eq_ok]
  constructor
  · rintro ⟨size, ⟨takes, sizeVal⟩, now, rfl, orderTs, rfl, time, ⟨root, times, timeVal⟩, _, _, rfl⟩
    exact ⟨takes, root, times, by rw [Checked.val_min, sizeVal, timeVal]⟩
  · rintro ⟨takes, root, times, value⟩
    obtain ⟨size, sizeVal⟩ := Ratio.exists_floor takes
    obtain ⟨now, rfl⟩ := Checked.exists_val.mpr times.now_held
    obtain ⟨orderTs, rfl⟩ := Checked.exists_val.mpr times.order_held
    obtain ⟨time, timeVal⟩ := Checked.exists_val.mpr times.byAge_held
    refine ⟨size, ⟨takes, sizeVal⟩, now, rfl, orderTs, rfl, time, ⟨root, times, timeVal⟩, (),
      trivial, ?_⟩
    apply Checked.ext
    rw [Checked.val_min, sizeVal, timeVal, value]

/-- A reward of integers is defined exactly if both of its candidates are, and is the lesser. -/
theorem reward?_eq_some_iff {fee orderTs now n : Int} :
    t.reward? fee orderTs now = some n ↔ Width.u128.Holds fee ∧ t.reward.Takes fee ∧
      ∃ root, t.Times orderTs now root ∧ n = min (t.reward.floor fee) (t.byAge root) := by
  constructor
  · intro rewarded
    have held : Width.u128.Holds fee := by
      simp only [reward?, payoutOf, Traced.result_bind, Traced.result_liftM] at rewarded
      cases taken : Checked.of .u128 (.int fee) with
      | error e =>
        rw [taken] at rewarded
        cases rewarded
      | ok amount => exact Checked.of_int_eq_ok.mp taken ▸ ⟨amount.lo_le, amount.le_hi⟩
    obtain ⟨amount, rfl⟩ := Checked.exists_val.mpr held
    obtain ⟨r, paid, rfl⟩ := reward?_eq_some.mp rewarded
    exact ⟨held, payout_plain_iff.mp paid⟩
  · rintro ⟨held, takes, root, times, rfl⟩
    obtain ⟨amount, rfl⟩ := Checked.exists_val.mpr held
    obtain ⟨time, timeVal⟩ := Checked.exists_val.mpr times.byAge_held
    have size := t.reward.floor_nonneg amount.nonneg
    have nonneg := time.nonneg
    obtain ⟨r, value⟩ :=
      time.exists_le (n := min (t.reward.floor amount.val) (t.byAge root)) (by omega) (by omega)
    exact reward?_eq_some.mpr ⟨r, payout_plain_iff.mpr ⟨takes, root, times, value⟩, value⟩

theorem exists_payoutOf_plain {fee orderTs now : Int} :
    (∃ r, ((t.map .plain).payoutOf (.int fee) (.int orderTs) (.int now)).result = .ok r) ↔
      ∃ n, t.reward? fee orderTs now = some n := by
  rw [reward?]
  cases ((t.map .plain).payoutOf (.int fee) (.int orderTs) (.int now)).result with
  | error e => simp [Except.toOption]
  | ok c => simp [Except.toOption]

theorem payoutOf_plain_eq_ok {fee orderTs now : Int} {r : U128} :
    ((t.map .plain).payoutOf (.int fee) (.int orderTs) (.int now)).result = .ok r ↔
      Width.u128.Holds fee ∧ t.reward.Takes fee ∧ ∃ root, t.Times orderTs now root ∧
        r.val = min (t.reward.floor fee) (t.byAge root) := by
  rw [← reward?_eq_some_iff, reward?]
  cases ((t.map .plain).payoutOf (.int fee) (.int orderTs) (.int now)).result with
  | error e => simp [Except.toOption]
  | ok c => simp [Except.toOption, Checked.ext_iff]

theorem timeRewardOf_plain_eq_ok {orderTs now : Int} {c : U128} :
    (t.map .plain).timeRewardOf (.int orderTs) (.int now) = .ok c ↔
      ∃ root, t.Times orderTs now root ∧ c.val = t.byAge root := by
  simp only [timeRewardOf, bind_eq_ok, Checked.of_int_eq_ok, timeReward_plain_eq_ok]
  constructor
  · rintro ⟨now, rfl, orderTs, rfl, paid⟩
    exact paid
  · rintro ⟨root, times, value⟩
    obtain ⟨now, rfl⟩ := Checked.exists_val.mpr times.now_held
    obtain ⟨orderTs, rfl⟩ := Checked.exists_val.mpr times.order_held
    exact ⟨now, rfl, orderTs, rfl, root, times, value⟩

theorem payoutOf_plain_arithmetical (t : FillerTerms U128) (fee orderTs now : Int) :
    Arithmetical [fee, orderTs, now]
      ((t.map .plain).payoutOf (.int fee) (.int orderTs) (.int now)).result := by
  refine .of_failsOnly fun faults arithmetic long => ?_
  have reads : ∀ x ∈ (t.map Term.plain).terms, x.ReadsOnly faults := by
    intro x member
    obtain ⟨n, _, rfl⟩ := List.mem_map.mp (show x ∈ t.terms.map Term.plain from member)
    exact Term.readsOnly_plain n
  have integer (n : Int) (member : n ∈ [fee, orderTs, now]) : (Value.int n).ReadsOnly faults :=
    Value.readsOnly_int arithmetic (long n member)
  simp only [payoutOf, Traced.result_bind, Traced.result_liftM]
  refine FailsOnly.bind (integer fee (by simp) _) fun fee => ?_
  exact payout_failsOnly arithmetic reads (integer _ (by simp)) (integer _ (by simp)) fee

theorem payoutOf_of_long {fee : Int} (long : ¬ Text.IsShort fee) (t : FillerTerms Term)
    (orderTs now : Value) : (t.payoutOf (.int fee) orderTs now).result = .error .longInteger := by
  have refused : Checked.of .u128 (.int fee) = .error .longInteger := Checked.ofInt_of_long long
  simp only [payoutOf, Traced.result_bind, Traced.result_liftM, refused]
  rfl

/-- An age that is a fourth power has the bound times its root for a reward. -/
theorem Times.byAge_of_pow {orderTs now root n : Int} (times : t.Times orderTs now root)
    (nonneg : 0 ≤ n) (power : max (now - orderTs) 1 = n ^ 4) :
    t.byAge root = n * t.lowerBound.val := by
  have floor := times.floor
  have scaled : max (now - orderTs) 1 * ageScale = (ageRootScale * n) ^ 4 := by
    rw [power, mul_pow, Int.mul_comm]
    rfl
  rw [scaled] at floor
  obtain rfl : root = ageRootScale * n :=
    floor.unique (Root.isFloor_pow (show (1 : Int) ≤ 4 by decide)
      (Int.mul_nonneg (by decide) nonneg))
  rw [byAge, Int.mul_assoc, Int.mul_ediv_cancel_left _ (by decide)]

/-- With the whole fourth root of the scaled age, the reward off a fee is defined exactly if what
enters it is in range and its products fit; it is then the lesser of the two candidates. Otherwise
it fails by arithmetic, or because an integer that it is given is too long to be written, as it does
if the fee is. Scaling the age, taking the root and cutting by the root of the scale never fail, and
an age that is a fourth power has the bound times its root for a reward. -/
theorem reward_in_closed_form (t : FillerTerms U128) (fee orderTs now : Int) :
    ∃ root : Int,
      (∀ k : Int, k ^ 4 ≤ max 1 (now - orderTs) * 10 ^ 8 ∧
        max 1 (now - orderTs) * 10 ^ 8 < (k + 1) ^ 4 ↔ k = root) ∧
      ReturnsExactly
        ((0 ≤ fee ∧ fee ≤ Width.u128.hi) ∧ fee * t.reward.numerator.val ≤ Width.u128.hi ∧
          t.reward.denominator.val ≠ 0 ∧ Width.i64.Holds orderTs ∧ Width.i64.Holds now ∧
          (0 ≤ now - orderTs ∧ now - orderTs ≤ Width.i64.hi) ∧
          root * t.lowerBound.val ≤ Width.u128.hi)
        (fun e => (∃ fault, e = .arithmetic fault) ∨
          e = .longInteger ∧ ∃ n ∈ [fee, orderTs, now], ¬ Text.IsShort n)
        ((t.map .plain).payoutOf (.int fee) (.int orderTs) (.int now)).result ∧
      (¬ Text.IsShort fee →
        ((t.map .plain).payoutOf (.int fee) (.int orderTs) (.int now)).result =
          .error .longInteger) ∧
      (∀ r, ((t.map .plain).payoutOf (.int fee) (.int orderTs) (.int now)).result = .ok r →
        r.val = min (fee * t.reward.numerator.val / t.reward.denominator.val)
          (root * t.lowerBound.val / 100)) ∧
      (∀ (o n : I64) (ticks : U128), age o n = .ok ticks →
        ∃ scaled whole, ticks.mul ageScale = .ok scaled ∧ scaled.root 4 = .ok whole) ∧
      (∀ product : U128, ∃ c, product.div ageRootScale = .ok c) ∧
      ∀ j : Int, 0 ≤ j → max 1 (now - orderTs) = j ^ 4 →
        ∀ c, (t.map .plain).timeRewardOf (.int orderTs) (.int now) = .ok c →
          c.val = j * t.lowerBound.val := by
  have nonneg : 0 ≤ max 1 (now - orderTs) * 10 ^ 8 := Int.mul_nonneg (by omega) (by decide)
  obtain ⟨root, floor⟩ := Root.exists_isFloor (show (1 : Int) ≤ 4 by decide) nonneg
  have timed : ∀ root', t.Times orderTs now root' → root' = root := by
    intro root' times
    have floor' := times.floor
    rw [max_comm] at floor'
    exact floor'.unique floor
  refine ⟨root, ?root, ⟨?returns, payoutOf_plain_arithmetical t fee orderTs now⟩,
    fun long => payoutOf_of_long long _ _ _, ?value, fun _ _ _ => exists_root_of_age, ?cut, ?power⟩
  case root =>
    intro k
    rw [← Root.isFloor_four_iff nonneg]
    constructor
    · intro floor'
      exact floor'.unique floor
    · rintro rfl
      exact floor
  case returns =>
    constructor
    · rintro ⟨r, returned⟩
      obtain ⟨held, takes, root', times, _⟩ := payoutOf_plain_eq_ok.mp returned
      obtain rfl := timed root' times
      exact ⟨⟨held.lo_le, held.le_hi⟩, takes.2, takes.1, times.order_held, times.now_held,
        ⟨times.age_nonneg, times.age_fits⟩, times.product⟩
    · rintro ⟨⟨feeNonneg, feeFits⟩, share, nonzero, placed, filled, ⟨ageNonneg, ageFits⟩, product⟩
      rw [max_comm] at floor
      have times : t.Times orderTs now root :=
        ⟨placed, filled, ageNonneg, ageFits, floor, product⟩
      exact exists_payoutOf_plain.mpr ⟨_, reward?_eq_some_iff.mpr
        ⟨⟨feeNonneg, feeFits⟩, ⟨nonzero, share⟩, root, times, rfl⟩⟩
  case value =>
    intro r returned
    obtain ⟨_, _, root', times, value⟩ := payoutOf_plain_eq_ok.mp returned
    obtain rfl := timed root' times
    exact value
  case cut =>
    intro product
    obtain ⟨c, value⟩ := product.exists_le (n := product.val.tdiv ageRootScale)
      (Int.tdiv_nonneg product.nonneg (by decide)) (Int.tdiv_le_self _ product.nonneg)
    exact ⟨c, Checked.div_eq_ok.mpr ⟨by decide, value⟩⟩
  case power =>
    intro j nonneg power c returned
    obtain ⟨root', times, value⟩ := timeRewardOf_plain_eq_ok.mp returned
    rw [max_comm] at power
    rw [value, times.byAge_of_pow nonneg power]

/-- A fee with a digit more than are written fails otherwise than by arithmetic. -/
theorem long_fee_unrewarded :
    ((FillerTerms.standard.map .plain).payoutOf (.int (10 ^ Text.digitLimit)) (.int 0)
      (.int 0)).result = .error .longInteger :=
  payoutOf_of_long Text.not_isShort_pow _ _ _

end FillerTerms
end ExchangeFees

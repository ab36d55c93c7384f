import ExchangeFees.Proofs.Fill.Amm
import ExchangeFees.Proofs.Reward.Curve
import ExchangeFees.Schedule.Mapping
import Mathlib.Algebra.BigOperators.Group.List.Basic
import Mathlib.Algebra.Order.Field.Rat
import Mathlib.Tactic.Linarith

/-! Schedules whose ratios in use add up to one at most. Every share is rounded down on its own and
the filler's reward is no more than the share that caps it, so together they leave a gross fee that
is not negative, and no subtraction fails on the way to it. What can still fail is the signed
width: the market's part has to fit it, and next to a surplus both the part and the sum. -/
namespace ExchangeFees

namespace Ratio

/-- The ratio as a rational number. Nothing is taken by a denominator of zero, so its value there
does not matter. -/
def quotient (r : Ratio U128) : ℚ := r.numerator.val / r.denominator.val

theorem floor_le_quotient (r : Ratio U128) (n : Int) : (r.floor n : ℚ) ≤ n * r.quotient := by
  obtain zero | positive := Int.le_iff_eq_or_lt.mp r.denominator.nonneg
  · simp [floor, quotient, ← zero]
  · have exact : ((r.floor n * r.denominator.val : Int) : ℚ) ≤ (n * r.numerator.val : Int) :=
      Int.cast_le.mpr (Int.ediv_mul_le _ (by omega))
    rw [quotient, ← mul_div_assoc, le_div_iff₀ (Int.cast_pos.mpr positive)]
    exact_mod_cast exact

theorem sum_floor_le_mul (ratios : List (Ratio U128)) (n : Int) :
    ((ratios.map (floor · n)).sum : ℚ) ≤ n * (ratios.map quotient).sum := by
  induction ratios with
  | nil => simp
  | cons r rest ih =>
    simp only [List.map_cons, List.sum_cons, Int.cast_add, mul_add]
    exact add_le_add (r.floor_le_quotient n) ih

/-- Shares of ratios that add up to one at most take no more than all, since each is rounded down
on its own. -/
theorem sum_floor_le {ratios : List (Ratio U128)} {n : Int} (nonneg : 0 ≤ n)
    (funded : (ratios.map quotient).sum ≤ 1) : (ratios.map (floor · n)).sum ≤ n := by
  have whole : (n : ℚ) * (ratios.map quotient).sum ≤ n :=
    mul_le_of_le_one_right (Int.cast_nonneg nonneg) funded
  exact Int.cast_le.mp ((sum_floor_le_mul ratios n).trans whole)

end Ratio

/-- The ratios that a referral uses. -/
def ReferralTerms.ratiosIf (t : ReferralTerms U128) (referred : Bool) : List (Ratio U128) :=
  if referred then [t.referrerReward, t.refereeDiscount] else []

theorem ReferralTerms.sum_ratiosIf (t : ReferralTerms U128) (referred : Bool) (n : Int) :
    ((t.ratiosIf referred).map (Ratio.floor · n)).sum =
      t.rewardIf referred n + t.discountIf referred n := by
  cases referred with
  | false => rfl
  | true => simp [ratiosIf, rewardIf, discountIf]

/-- The ratio that caps a filler's reward. -/
def FillerTerms.ratiosIf (t : FillerTerms U128) (wanted : Bool) : List (Ratio U128) :=
  if wanted then [t.reward] else []

/-- The reward is no more than the share of the fee that caps it. -/
theorem FillerTerms.le_sum_ratiosIf {t : FillerTerms U128} {wanted : Bool} {fee orderTs now n : Int}
    (rewarded : t.rewardIf? wanted fee orderTs now = some n) :
    n ≤ ((t.ratiosIf wanted).map (Ratio.floor · fee)).sum := by
  cases wanted with
  | false => exact Int.le_of_eq (Option.some.inj rewarded).symm
  | true =>
    obtain ⟨_, _, _, _, rfl⟩ := reward?_eq_some_iff.mp rewarded
    simp [ratiosIf]

namespace MatchedTrade

/-- The ratios by which a taker's gross fee is given away, but for the rebate. -/
def takerRatios (t : MatchedTrade) (s : FeeSchedule U128) : List (Ratio U128) :=
  s.referral.ratiosIf t.rewardReferrer ++ s.filler.ratiosIf t.rewardFiller

/-- Every amount that a taker's trade uses is defined, the filler's reward with the given value. -/
structure TakerDefined (t : MatchedTrade) (s : FeeSchedule U128) (filler : Int) : Prop where
  quoteAmount : Width.u128.Holds t.quoteAmount
  fee : s.fee.Takes t.quoteAmount
  referral : s.referral.TakesIf t.rewardReferrer (t.gross s)
  rewarded : t.fillerReward? s = some filler

/-- Every amount that a trade between two orders uses is defined, the rebate included. -/
structure Defined (t : MatchedTrade) (s : FeeSchedule U128) (filler : Int) : Prop
    extends t.TakerDefined s filler where
  makerRebate : s.makerRebate.Takes (t.gross s)

/-- What a trade between two orders leaves of the gross fee for the market. -/
def residual (t : MatchedTrade) (s : FeeSchedule U128) (filler : Int) : Int :=
  t.gross s - t.refereeDiscount s - filler - t.referrerReward s - t.rebate s

variable {t : MatchedTrade} {s : FeeSchedule U128} {filler : Int}

theorem TakerDefined.exists_gross (c : t.TakerDefined s filler) :
    ∃ fee : U128, fee.val = t.gross s :=
  Checked.exists_val.mpr
    ⟨s.fee.floor_nonneg c.quoteAmount.lo_le, s.fee.floor_le c.quoteAmount.lo_le c.fee⟩

theorem TakerDefined.gross_nonneg (c : t.TakerDefined s filler) : 0 ≤ t.gross s :=
  s.fee.floor_nonneg c.quoteAmount.lo_le

theorem TakerDefined.rebate_nonneg (c : t.TakerDefined s filler) : 0 ≤ t.rebate s :=
  s.makerRebate.floor_nonneg c.gross_nonneg

theorem TakerDefined.exists_paid (c : t.TakerDefined s filler) :
    ∃ paid : U128, paid.val = filler := by
  obtain ⟨fee, gross⟩ := c.exists_gross
  have rewarded := c.rewarded
  rw [fillerReward?, ← gross] at rewarded
  exact FillerTerms.exists_of_rewardIf? rewarded

/-- What a taker's trade gives away is no more than the shares of the ratios in use. -/
theorem TakerDefined.given_le (c : t.TakerDefined s filler) :
    t.refereeDiscount s + filler + t.referrerReward s ≤
      ((t.takerRatios s).map (Ratio.floor · (t.gross s))).sum := by
  have capped := FillerTerms.le_sum_ratiosIf c.rewarded
  rw [takerRatios, List.map_append, List.sum_append, ReferralTerms.sum_ratiosIf]
  unfold referrerReward refereeDiscount
  omega

theorem TakerDefined.covered (c : t.TakerDefined s filler)
    (funded : ((t.takerRatios s).map Ratio.quotient).sum ≤ 1) :
    t.refereeDiscount s + filler + t.referrerReward s ≤ t.gross s :=
  Int.le_trans c.given_le (Ratio.sum_floor_le c.gross_nonneg funded)

/-- A trade whose ratios in use add up to one at most is covered by its fee. -/
theorem Defined.covered (c : t.Defined s filler)
    (funded : ((s.makerRebate :: t.takerRatios s).map Ratio.quotient).sum ≤ 1) :
    t.refereeDiscount s + filler + t.referrerReward s + t.rebate s ≤ t.gross s := by
  have given := c.given_le
  have whole := Ratio.sum_floor_le c.gross_nonneg funded
  rw [List.map_cons, List.sum_cons] at whole
  unfold rebate
  omega

/-- The amounts that computing a taker's fees meets on the way to what the gross fee leaves. -/
structure Carves (t : MatchedTrade) (s : FeeSchedule U128) (filler : Int) (fee : U128)
    (shares : ReferralShares) (userFee paid part left : U128) : Prop where
  gross : (s.map .plain).grossFee (.int t.quoteAmount) = .ok fee
  referral : (s.map .plain).referral.sharesIf t.rewardReferrer fee = .ok shares
  taken : fee.sub shares.refereeDiscount.val = .ok userFee
  payout : ((s.map .plain).filler.payoutIf t.rewardFiller fee (.int t.orderTs)
    (.int t.now)).result = .ok paid
  unpaid : userFee.sub paid.val = .ok part
  unreferred : part.sub shares.referrerReward.val = .ok left
  gross_eq : fee.val = t.gross s
  left_eq : left.val = t.gross s - t.refereeDiscount s - filler - t.referrerReward s

/-- As long as the gross fee covers what is given away, no subtraction fails. -/
theorem TakerDefined.exists_left (c : t.TakerDefined s filler)
    (covered : t.refereeDiscount s + filler + t.referrerReward s ≤ t.gross s) :
    ∃ fee shares userFee paid part left, t.Carves s filler fee shares userFee paid part left := by
  obtain ⟨fee, gross⟩ := c.exists_gross
  obtain ⟨paid, rfl⟩ := c.exists_paid
  obtain ⟨shares, shared⟩ := ReferralTerms.exists_shares (gross ▸ c.referral)
  obtain ⟨_, reward, discount⟩ := ReferralTerms.sharesIf_plain_eq_ok.mp shared
  rw [gross] at reward discount
  have reward : shares.referrerReward.val = t.referrerReward s := reward
  have discount : shares.refereeDiscount.val = t.refereeDiscount s := discount
  have := shares.refereeDiscount.nonneg
  have := shares.referrerReward.nonneg
  have := paid.nonneg
  obtain ⟨userFee, taken⟩ :=
    fee.exists_le (n := fee.val - shares.refereeDiscount.val) (by omega) (by omega)
  obtain ⟨part, unpaid⟩ := fee.exists_le (n := userFee.val - paid.val) (by omega) (by omega)
  obtain ⟨left, unreferred⟩ :=
    fee.exists_le (n := part.val - shares.referrerReward.val) (by omega) (by omega)
  exact ⟨fee, shares, userFee, paid, part, left,
    FeeSchedule.grossFee_plain_eq_ok.mpr ⟨c.quoteAmount, c.fee, gross⟩, shared,
    Checked.sub_eq_ok.mpr taken, FillerTerms.payoutIf_plain_eq_ok.mpr (gross ▸ c.rewarded),
    Checked.sub_eq_ok.mpr unpaid, Checked.sub_eq_ok.mpr unreferred, gross, by omega⟩

theorem residual_nonneg
    (covered : t.refereeDiscount s + filler + t.referrerReward s + t.rebate s ≤ t.gross s) :
    0 ≤ t.residual s filler := by
  unfold residual
  omega

theorem Defined.residual_held (c : t.Defined s filler)
    (covered : t.refereeDiscount s + filler + t.referrerReward s + t.rebate s ≤ t.gross s) :
    Width.u128.Holds (t.residual s filler) := by
  have rebate := c.rebate_nonneg
  obtain ⟨_, _, _, _, _, left, a⟩ := c.exists_left (by omega)
  have value := a.left_eq
  refine left.holds_of_le (residual_nonneg covered) ?_
  unfold residual
  omega

/-- A trade that its fee covers comes down to one conversion of what is left. -/
theorem Defined.fees_eq (c : t.Defined s filler)
    (covered : t.refereeDiscount s + filler + t.referrerReward s + t.rebate s ≤ t.gross s) :
    ∃ breakdown : I128 → FillBreakdown, (t.fill.fees (s.map .plain)).result = do
      let toMarket ← Checked.castInt (t.residual s filler) .i128
      return breakdown toMarket := by
  have nonneg := c.rebate_nonneg
  obtain ⟨fee, shares, userFee, paid, part, left, a⟩ := c.exists_left (by omega)
  have takes := c.makerRebate
  rw [← a.gross_eq] at takes
  obtain ⟨rebate, rebateVal⟩ := Ratio.exists_floor takes
  have rebated : (s.map Term.plain).makerRebate.share fee = .ok rebate :=
    Ratio.share_plain_eq_ok.mpr ⟨takes, rebateVal⟩
  rw [a.gross_eq] at rebateVal
  have kept : t.residual s filler =
      userFee.val - paid.val - shares.referrerReward.val - rebate.val := by
    rw [← Checked.sub_eq_ok.mp a.unpaid, ← Checked.sub_eq_ok.mp a.unreferred, a.left_eq, rebateVal]
    rfl
  rw [MatchedFill.fees_of_covered a.gross rebated a.referral (Checked.sub_eq_ok.mp a.taken)
    a.payout kept (residual_nonneg covered)]
  exact ⟨fun toMarket =>
    { userFee, makerRebate := rebate, feeToMarket := toMarket, feeToMarketForLp := .zero,
      fillerReward := paid, refereeDiscount := shares.refereeDiscount,
      referrerReward := shares.referrerReward }, rfl⟩

/-- All that can fail in a trade that its fee covers is the conversion of what is left. -/
theorem Defined.outcome (c : t.Defined s filler)
    (funded : ((s.makerRebate :: t.takerRatios s).map Ratio.quotient).sum ≤ 1) :
    ReturnsExactly (t.residual s filler ≤ Width.i128.hi)
      (· = .arithmetic (.lossyCast (t.residual s filler) .i128))
      (t.fill.fees (s.map .plain)).result := by
  have covered := c.covered funded
  obtain ⟨breakdown, fees⟩ := c.fees_eq covered
  rw [fees, ← Width.i128_holds (residual_nonneg covered)]
  obtain ⟨toMarket, moved, movedVal⟩ | ⟨outside, refused⟩ :=
    Checked.castInt_outcome (c.residual_held covered) .i128
  · rw [moved]
    exact .ok _ (movedVal ▸ ⟨toMarket.lo_le, toMarket.le_hi⟩)
  · rw [refused]
    exact .error outside rfl

/-- The amounts and times for which the standard schedule defines everything: ten times the quote
amount fits, and the timestamps have an age. -/
structure StandardInput (t : MatchedTrade) : Prop where
  quote_nonneg : 0 ≤ t.quoteAmount
  quote_le : t.quoteAmount ≤ Width.u128.hi / 10
  order_held : Width.i64.Holds t.orderTs
  now_held : Width.i64.Holds t.now
  age_nonneg : 0 ≤ t.now - t.orderTs
  age_fits : t.now - t.orderTs ≤ Width.i64.hi

theorem StandardInput.gross_held (i : t.StandardInput) : Width.u128.Holds (t.gross .standard) := by
  have gross : t.gross .standard = t.quoteAmount * 10 / 10000 := rfl
  have low := i.quote_nonneg
  have high := i.quote_le
  exact ⟨(by omega : 0 ≤ t.gross .standard), by omega⟩

/-- No numerator of the standard schedule is above ten, so its products with a fee all fit. -/
theorem StandardInput.takes (i : t.StandardInput) {r : Ratio U128} (nonzero : r.denominator.val ≠ 0)
    (small : r.numerator.val ≤ 10) : r.Takes (t.gross .standard) := by
  have gross : t.gross .standard = t.quoteAmount * 10 / 10000 := rfl
  have nonneg := i.gross_held.lo_le
  have low := i.quote_nonneg
  have high := i.quote_le
  refine ⟨nonzero, ?_⟩
  calc t.gross .standard * r.numerator.val
      ≤ t.gross .standard * 10 := Int.mul_le_mul_of_nonneg_left small nonneg
    _ ≤ Width.u128.hi := by omega

/-- The root of a scaled age is no more than the scaled age, and even that fits when multiplied by
the standard lower bound. -/
theorem StandardInput.exists_times (i : t.StandardInput) :
    ∃ root, FillerTerms.standard.Times t.orderTs t.now root := by
  have fits := i.age_fits
  obtain ⟨root, floor⟩ : ∃ root, Root.IsFloor (max (t.now - t.orderTs) 1 * ageScale) 4 root :=
    Root.exists_isFloor (by decide) (Int.mul_nonneg (by omega) (by decide))
  have bound : root ≤ max (t.now - t.orderTs) 1 * 100000000 := floor.le_value
  have ages : Width.i64.hi = 9223372036854775807 := rfl
  have amounts : Width.u128.hi = 340282366920938463463374607431768211455 := rfl
  have product : root * 10000 ≤ Width.u128.hi := by omega
  exact ⟨root, i.order_held, i.now_held, i.age_nonneg, fits, floor, product⟩

theorem StandardInput.exists_filler (i : t.StandardInput) :
    ∃ filler, t.fillerReward? .standard = some filler := by
  unfold fillerReward? FillerTerms.rewardIf?
  split
  · obtain ⟨root, times⟩ := i.exists_times
    exact ⟨_, FillerTerms.reward?_eq_some_iff.mpr
      ⟨i.gross_held, i.takes (by decide) (by decide), root, times, rfl⟩⟩
  · exact ⟨0, rfl⟩

theorem StandardInput.exists_defined (i : t.StandardInput) :
    ∃ filler, t.Defined .standard filler := by
  obtain ⟨filler, rewarded⟩ := i.exists_filler
  have low := i.quote_nonneg
  have high := i.quote_le
  have held : Width.u128.Holds t.quoteAmount := ⟨low, by omega⟩
  have product : t.quoteAmount * 10 ≤ Width.u128.hi := by omega
  have rebate := i.takes (r := FeeSchedule.standard.makerRebate) (by decide) (by decide)
  have referral : FeeSchedule.standard.referral.TakesIf t.rewardReferrer (t.gross .standard) :=
    fun _ => ⟨i.takes (by decide) (by decide), i.takes (by decide) (by decide)⟩
  exact ⟨filler, ⟨held, ⟨by decide, product⟩, referral, rewarded⟩, rebate⟩

/-- Even all of the standard ratios together leave a fifth of the fee. -/
theorem standard_funded (t : MatchedTrade) :
    ((FeeSchedule.standard.makerRebate :: t.takerRatios .standard).map Ratio.quotient).sum ≤ 1 := by
  have rebate : FeeSchedule.standard.makerRebate.quotient = 6 / 10 := rfl
  have referrer : FeeSchedule.standard.referral.referrerReward.quotient = 5 / 100 := rfl
  have referee : FeeSchedule.standard.referral.refereeDiscount.quotient = 5 / 100 := rfl
  have filler : FeeSchedule.standard.filler.reward.quotient = 1 / 10 := rfl
  unfold takerRatios ReferralTerms.ratiosIf FillerTerms.ratiosIf
  cases t.rewardReferrer <;> cases t.rewardFiller <;>
    norm_num [rebate, referrer, referee, filler]

theorem StandardInput.returns (i : t.StandardInput) :
    ∃ b, (t.fill.fees Schedule.standard).result = .ok b := by
  obtain ⟨filler, c⟩ := i.exists_defined
  refine (c.outcome t.standard_funded).returns.mpr ?_
  obtain ⟨paid, rfl⟩ := c.exists_paid
  have := paid.nonneg
  have rebate := c.rebate_nonneg
  have reward : 0 ≤ t.referrerReward .standard :=
    ReferralTerms.rewardIf_nonneg _ _ c.gross_nonneg
  have discount : 0 ≤ t.refereeDiscount .standard :=
    ReferralTerms.discountIf_nonneg _ _ c.gross_nonneg
  have gross : t.gross .standard = t.quoteAmount * 10 / 10000 := rfl
  have amounts : Width.u128.hi = 340282366920938463463374607431768211455 := rfl
  have signed : Width.i128.hi = 170141183460469231731687303715884105727 := rfl
  have low := i.quote_nonneg
  have high := i.quote_le
  unfold residual
  omega

end MatchedTrade

namespace AmmTrade

variable {t : AmmTrade} {s : FeeSchedule U128} {filler : Int}

theorem left_nonneg (covered : t.refereeDiscount s + filler + t.referrerReward s ≤ t.gross s) :
    0 ≤ t.left s filler := by
  unfold left
  omega

theorem left_held (c : t.TakerDefined s filler)
    (covered : t.refereeDiscount s + filler + t.referrerReward s ≤ t.gross s) :
    Width.u128.Holds (t.left s filler) := by
  obtain ⟨_, _, _, _, _, left, a⟩ := c.exists_left covered
  exact left.holds_of_le (left_nonneg covered) (Int.le_of_eq a.left_eq.symm)

/-- A taker's trade that its fee covers comes down to the conversion of what is left and the sum
with the surplus. -/
theorem fees_eq_of_covered (taker : t.postOnly = false) {surplus : I128}
    (surplusVal : surplus.val = t.surplus) (c : t.TakerDefined s filler)
    (covered : t.refereeDiscount s + filler + t.referrerReward s ≤ t.gross s) :
    ∃ breakdown : I128 → I128 → FillBreakdown, (t.fill.fees (s.map .plain)).result = do
      let left ← Checked.castInt (t.left s filler) .i128
      let toMarket ← left.add surplus.val
      return breakdown toMarket left := by
  obtain ⟨fee, shares, userFee, paid, part, left, a⟩ := c.exists_left covered
  have read : Checked.of .i128 t.fill.surplus = .ok surplus := Checked.of_int_eq_ok.mpr surplusVal
  have kept : t.left s filler = userFee.val - paid.val - shares.referrerReward.val := by
    rw [← Checked.sub_eq_ok.mp a.unpaid, ← Checked.sub_eq_ok.mp a.unreferred, a.left_eq]
    rfl
  rw [AmmFill.fees_of_taker taker read, AmmFill.takerFees_of_covered (f := t.fill) a.gross
    a.referral (Checked.sub_eq_ok.mp a.taken) a.payout kept (left_nonneg covered)]
  exact ⟨fun toMarket forLp =>
    { userFee, makerRebate := .zero, feeToMarket := toMarket, feeToMarketForLp := forLp,
      fillerReward := paid, refereeDiscount := shares.refereeDiscount,
      referrerReward := shares.referrerReward }, rfl⟩

/-- All that can fail in a taker's trade is the conversion of what is left and then the sum with
the surplus. -/
theorem taker_outcome (taker : t.postOnly = false) (held : Width.i128.Holds t.surplus)
    (c : t.TakerDefined s filler) (funded : ((t.takerRatios s).map Ratio.quotient).sum ≤ 1) :
    ReturnsExactly (t.left s filler ≤ Width.i128.hi ∧ t.left s filler + t.surplus ≤ Width.i128.hi)
      (fun e => e = .arithmetic (.lossyCast (t.left s filler) .i128) ∨
        e = .arithmetic (.overflow .i128 (t.left s filler + t.surplus)))
      (t.fill.fees (s.map .plain)).result := by
  obtain ⟨surplus, surplusVal⟩ := Checked.exists_val.mpr held
  have covered := c.covered funded
  obtain ⟨breakdown, fees⟩ := fees_eq_of_covered taker surplusVal c covered
  have nonneg := left_nonneg covered
  have low := surplus.lo_le
  rw [fees, ← surplusVal]
  obtain ⟨left, moved, leftVal⟩ | ⟨outside, refused⟩ :=
    Checked.castInt_outcome (left_held c covered) .i128
  · rw [moved, ok_bind, ← leftVal]
    obtain ⟨toMarket, added, sum⟩ | ⟨outside, refused⟩ := left.add_outcome surplus.val
    · rw [added]
      exact .ok _ ⟨left.le_hi, sum ▸ toMarket.le_hi⟩
    · rw [refused]
      exact .error (fun fits => outside ⟨by omega, fits.2⟩) (.inr rfl)
  · rw [refused]
    exact .error (fun fits => outside ((Width.i128_holds nonneg).mpr fits.1)) (.inl rfl)

/-- A trade with a resting order returns if the share that caps the reward is no more than all. -/
theorem resting_outcome (resting : t.postOnly = true) (nonneg : 0 ≤ t.surplus)
    (fits : t.surplus ≤ Width.i128.hi) (rewarded : t.restingReward? s = some filler)
    (funded : ((s.filler.ratiosIf t.rewardFiller).map Ratio.quotient).sum ≤ 1) :
    filler ≤ t.surplus ∧ ∃ b, (t.fill.fees (s.map .plain)).result = .ok b := by
  have covered : filler ≤ t.surplus :=
    Int.le_trans (FillerTerms.le_sum_ratiosIf rewarded) (Ratio.sum_floor_le nonneg funded)
  have settles : t.RestingSettles s filler := ⟨nonneg, fits, rewarded, covered⟩
  obtain ⟨b, description⟩ := settles.exists_describes
  exact ⟨covered, b, (resting_fees_eq_ok resting).mpr ⟨filler, settles, description⟩⟩

end AmmTrade

/-- Over a schedule whose ratios in use add up to one at most, what is given away is no more than
the gross fee, and no subtraction fails: a trade with defined amounts returns exactly if what is
left fits the signed width, and so does its sum with the surplus where there is one, and fails by
these two alone. A resting order whose filler's ratio is one at most is paid out of the surplus.
The standard schedule returns on every quote amount that it can multiply. -/
theorem FeeSchedule.funded_fees_return (s : FeeSchedule U128) :
    (∀ (t : MatchedTrade) (filler : Int), t.Defined s filler →
      ((s.makerRebate :: t.takerRatios s).map Ratio.quotient).sum ≤ 1 →
        t.refereeDiscount s + filler + t.referrerReward s + t.rebate s ≤ t.gross s ∧
        ReturnsExactly (t.residual s filler ≤ Width.i128.hi)
          (· = .arithmetic (.lossyCast (t.residual s filler) .i128))
          (t.fill.fees (s.map .plain)).result) ∧
    (∀ (t : AmmTrade) (filler : Int), t.postOnly = false → Width.i128.Holds t.surplus →
      t.TakerDefined s filler → ((t.takerRatios s).map Ratio.quotient).sum ≤ 1 →
        t.refereeDiscount s + filler + t.referrerReward s ≤ t.gross s ∧
        ReturnsExactly
          (t.left s filler ≤ Width.i128.hi ∧ t.left s filler + t.surplus ≤ Width.i128.hi)
          (fun e => e = .arithmetic (.lossyCast (t.left s filler) .i128) ∨
            e = .arithmetic (.overflow .i128 (t.left s filler + t.surplus)))
          (t.fill.fees (s.map .plain)).result) ∧
    (∀ (t : AmmTrade) (filler : Int), t.postOnly = true → 0 ≤ t.surplus →
      t.surplus ≤ Width.i128.hi → t.restingReward? s = some filler →
      ((s.filler.ratiosIf t.rewardFiller).map Ratio.quotient).sum ≤ 1 →
        filler ≤ t.surplus ∧ ∃ b, (t.fill.fees (s.map .plain)).result = .ok b) ∧
    ∀ t : MatchedTrade, t.StandardInput →
      ∃ b, (t.fill.fees Schedule.standard).result = .ok b :=
  ⟨fun _ _ c funded => ⟨c.covered funded, c.outcome funded⟩,
    fun _ _ taker held c funded =>
      ⟨c.covered funded, AmmTrade.taker_outcome taker held c funded⟩,
    fun _ _ => AmmTrade.resting_outcome, fun _ => MatchedTrade.StandardInput.returns⟩

/-- The largest quote amount that the standard schedule returns on, at the greatest age. -/
theorem MatchedTrade.standard_returns_at_the_top :
    ∃ b, ((fill ⟨Width.u128.hi / 10, 0, Width.i64.hi, true, true⟩).fees
      Schedule.standard).result = .ok b :=
  (FeeSchedule.funded_fees_return .standard).2.2.2 _
    ⟨by decide, by decide, ⟨by decide, by decide⟩, ⟨by decide, by decide⟩, by decide, by decide⟩

end ExchangeFees

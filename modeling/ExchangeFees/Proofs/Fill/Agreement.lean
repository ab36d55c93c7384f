import ExchangeFees.Proofs.Fill.Amm
import ExchangeFees.Proofs.Fill.Venue
import ExchangeFees.Proofs.Reward.Curve

/-! Agreement of the three kinds of fill on one order. A fill between two orders without a rebate
ends as the market's own maker without a surplus ends it, and with a rebate the maker's fill fails
only where the market's part and the rebate together exceed the signed width. A venue that takes
nothing ends as the market's own maker does unless the filler's reward exceeds the gross fee: the
venue's fill then cuts the reward to the fee, where the other fails. Schedules and values are
arbitrary, so the agreement includes which failure comes first. -/
namespace ExchangeFees

/-- A taker's fill without a surplus ends with one conversion, which is the market's part and that
of the liquidity providers. -/
theorem AmmFill.fees_of_no_surplus {f : AmmFill} (none : f.surplus = .int 0)
    (taker : f.postOnly = false) (s : Schedule) :
    (f.fees s).result = do
      let fee ← s.grossFee f.quoteAmount
      let referral ← s.referral.sharesIf f.rewardReferrer fee
      let userFee ← fee.sub referral.refereeDiscount.val
      let filler ← (s.filler.payoutIf f.rewardFiller fee f.orderTs f.now).result
      let left ← userFee.sub filler.val
      let left ← left.sub referral.referrerReward.val
      let toMarket ← left.cast .i128
      return { userFee, makerRebate := .zero, feeToMarket := toMarket,
               feeToMarketForLp := toMarket, fillerReward := filler,
               refereeDiscount := referral.refereeDiscount,
               referrerReward := referral.referrerReward } := by
  have zero : Checked.of .i128 (.int 0) = .ok .zero := rfl
  simp only [fees, takerFees, none, taker, Bool.false_eq_true, if_false, Traced.result_bind,
    Traced.result_liftM, Traced.result_log, Traced.result_pure, zero, ok_bind, Checked.val_zero,
    Checked.add_zero, Checked.sub_zero]
  rfl

/-- Two breakdowns that are equal in every field but the part for the liquidity providers. -/
structure FillBreakdown.SameButForLp (b c : FillBreakdown) : Prop where
  userFee : b.userFee = c.userFee
  makerRebate : b.makerRebate = c.makerRebate
  feeToMarket : b.feeToMarket = c.feeToMarket
  fillerReward : b.fillerReward = c.fillerReward
  refereeDiscount : b.refereeDiscount = c.refereeDiscount
  referrerReward : b.referrerReward = c.referrerReward

namespace MatchedFill

/-- The same order, filled by the market's own maker without a surplus. -/
def againstAmm (f : MatchedFill) : AmmFill where
  quoteAmount := f.quoteAmount
  orderTs := f.orderTs
  now := f.now
  rewardFiller := f.rewardFiller
  rewardReferrer := f.rewardReferrer
  surplus := .int 0
  postOnly := false

variable {f : MatchedFill} {s : Schedule} {fee : U128} {b : FillBreakdown}

theorem fees_of_no_rebate (none : ∀ fee, s.makerRebate.share fee = .ok .zero) :
    (f.fees s).result =
      (fun c => { c with feeToMarketForLp := .zero }) <$> (f.againstAmm.fees s).result := by
  rw [AmmFill.fees_of_no_surplus rfl rfl]
  simp only [fees, none, Traced.result_bind, Traced.result_liftM, Traced.result_log,
    Traced.result_pure, ok_bind, Checked.val_zero, Checked.sub_zero, map_bind, map_pure]
  rfl

/-- Where a fill between two orders returns, only the conversion of the market's part with the
rebate is left to fail for the market's own maker. -/
theorem Distributes.fees_againstAmm (d : f.Distributes s fee b) :
    (f.againstAmm.fees s).result = do
      let toMarket ← Checked.castInt (b.feeToMarket.val + b.makerRebate.val) .i128
      return { b with makerRebate := .zero, feeToMarket := toMarket,
                      feeToMarketForLp := toMarket } := by
  have toMarket := d.toMarket
  have kept : b.feeToMarket.val + b.makerRebate.val =
      b.userFee.val - b.fillerReward.val - b.referrerReward.val := by omega
  have covered := Int.add_nonneg d.toMarket_nonneg b.makerRebate.nonneg
  have none : Checked.of .i128 f.againstAmm.surplus = .ok .zero := rfl
  rw [AmmFill.fees_of_taker rfl none, AmmFill.takerFees_of_covered (f := f.againstAmm) d.gross
    d.referral d.userFee d.filler kept covered]
  simp only [Checked.val_zero, Checked.add_zero, ok_bind]

/-- Without a rebate a fill between two orders and one by the market's own maker fail by the same
error or return the same but for the providers' part. With any rebate, where both return they
charge and pay the same, and the market's own maker keeps the rebate too; where the first returns,
the other fails exactly if that exceeds the signed width. -/
theorem matched_agrees_with_amm (f : MatchedFill) (s : Schedule) :
    (∀ p : Ratio U128, (s.makerRebate.map Term.toValue).Reads p → p.numerator.val = 0 →
      1 ≤ p.denominator.val →
        (∃ e, (f.fees s).result = .error e ∧ (f.againstAmm.fees s).result = .error e) ∨
        ∃ b c, (f.fees s).result = .ok b ∧ (f.againstAmm.fees s).result = .ok c ∧
          b.SameButForLp c) ∧
    (∀ b c, (f.fees s).result = .ok b → (f.againstAmm.fees s).result = .ok c →
      c.userFee = b.userFee ∧ c.fillerReward = b.fillerReward ∧
      c.refereeDiscount = b.refereeDiscount ∧ c.referrerReward = b.referrerReward ∧
      c.feeToMarket = c.feeToMarketForLp ∧
      c.feeToMarket.val = b.feeToMarket.val + b.makerRebate.val) ∧
    ∀ b, (f.fees s).result = .ok b →
      ((∃ e, (f.againstAmm.fees s).result = .error e) ↔
        Width.i128.hi < b.feeToMarket.val + b.makerRebate.val) := by
  refine ⟨fun p reads zero nonzero => ?_, fun b c returned other => ?_, fun b returned => ?_⟩
  · rw [fees_of_no_rebate (Ratio.share_of_zero reads zero nonzero)]
    cases (f.againstAmm.fees s).result with
    | error e => exact .inl ⟨e, rfl, rfl⟩
    | ok c => exact .inr ⟨_, c, rfl, rfl, ⟨rfl, rfl, rfl, rfl, rfl, rfl⟩⟩
  · obtain ⟨fee, d⟩ := fees_eq_ok.mp returned
    rw [d.fees_againstAmm] at other
    obtain ⟨toMarket, kept, same⟩ := bind_eq_ok.mp other
    obtain rfl := pure_eq_ok.mp same
    exact ⟨rfl, rfl, rfl, rfl, rfl, Checked.within_eq_ok.mp kept⟩
  · obtain ⟨fee, d⟩ := fees_eq_ok.mp returned
    have nonneg : 0 ≤ b.feeToMarket.val + b.makerRebate.val :=
      Int.add_nonneg d.toMarket_nonneg b.makerRebate.nonneg
    rw [d.fees_againstAmm, ← Int.not_le, ← Width.i128_holds nonneg]
    constructor
    · rintro ⟨e, failed⟩
      obtain failed | ⟨toMarket, _, done⟩ := bind_eq_error.mp failed
      · exact (Checked.within_eq_error.mp failed).1
      · cases done
    · intro outside
      exact ⟨_, bind_eq_error.mpr (.inl (Checked.within_eq_error.mpr ⟨outside, rfl⟩))⟩

/-- Where all of a fee beyond the signed width is the maker's rebate, only the fill between two
orders returns. -/
theorem whole_fee_rebated :
    let f := MatchedTrade.fill ⟨Width.i128.hi + 1, 0, 0, false, false⟩
    let s := FeeSchedule.map Term.plain ⟨⟨.one, .one⟩, ⟨.one, .one⟩, .standard, .standard⟩
    (∃ b, (f.fees s).result = .ok b) ∧ ∃ e, (f.againstAmm.fees s).result = .error e :=
  ⟨⟨_, rfl⟩, ((matched_agrees_with_amm _ _).2.2 _ rfl).mpr (by decide)⟩

end MatchedFill

/-- With nothing taken and an empty pool the reward is cut to the fee and to nothing else. -/
theorem FillerTerms.payoutWithin_of_no_take (t : FillerTerms Term) (wanted : Bool) (fee : U128)
    (orderTs now : Value) :
    (t.payoutWithin wanted fee .zero .zero orderTs now).result =
      (·.min fee) <$> (t.payoutIf wanted fee orderTs now).result := by
  cases wanted with
  | false => exact congrArg Except.ok (Checked.zero_min fee).symm
  | true =>
    simp only [payoutWithin, payoutIf, if_true, Traced.result_bind, Traced.result_liftM,
      Traced.result_pure, Checked.val_zero, Checked.sub_zero, Checked.max_zero, ok_bind]
    rfl

/-- A breakdown on a venue that gives what a breakdown by the market's own maker gives, the pool
standing for the market. -/
structure VenueBreakdown.Gives (v : VenueBreakdown) (b : FillBreakdown) : Prop where
  userFee : v.userFee = b.userFee
  fillerReward : v.fillerReward = b.fillerReward
  feeToMarket : v.feeToMarket.val = b.feeToMarket.val
  feePoolDelta : v.feePoolDelta = b.feeToMarket

namespace VenueFill

/-- The same order, filled by the market's own maker without a referral and a surplus. -/
def againstAmm (f : VenueFill) : AmmFill where
  quoteAmount := f.quoteAmount
  orderTs := f.orderTs
  now := f.now
  rewardFiller := f.rewardFiller
  rewardReferrer := false
  surplus := .int 0
  postOnly := false

/-- The same order on a venue that takes nothing, with an empty pool. -/
def withoutTake (f : VenueFill) : VenueFill :=
  { f with venueFee := .int 0, referrerRebate := .int 0, feePool := .int 0 }

variable {f : VenueFill} {s : Schedule} {fee : U128}

theorem fees_againstAmm (f : VenueFill) (s : Schedule) :
    (f.againstAmm.fees s).result = do
      let fee ← s.grossFee f.quoteAmount
      let filler ← (s.filler.payoutIf f.rewardFiller fee f.orderTs f.now).result
      let left ← fee.sub filler.val
      let toMarket ← left.cast .i128
      return { userFee := fee, makerRebate := .zero, feeToMarket := toMarket,
               feeToMarketForLp := toMarket, fillerReward := filler, refereeDiscount := .zero,
               referrerReward := .zero } := by
  rw [AmmFill.fees_of_no_surplus rfl rfl]
  simp only [againstAmm, ReferralTerms.sharesIf, Bool.false_eq_true, if_false, ok_bind,
    Checked.val_zero, Checked.sub_zero]

theorem fees_withoutTake (f : VenueFill) (s : Schedule) :
    (f.withoutTake.fees s).result = do
      let fee ← s.grossFee f.quoteAmount
      let reward ← (s.filler.payoutIf f.rewardFiller fee f.orderTs f.now).result
      let toMarket ← fee.sub (reward.min fee).val
      let poolDelta ← toMarket.cast .i128
      return { userFee := fee, feeToMarket := toMarket, feePoolDelta := poolDelta,
               fillerReward := reward.min fee } := by
  have zero : Checked.of .u128 (.int 0) = .ok .zero := rfl
  have signed : (Checked.zero : U128).cast .i128 = .ok .zero := rfl
  simp only [fees, withoutTake, zero, signed, Traced.result_bind, Traced.result_liftM,
    Traced.result_log, Traced.result_pure, ok_bind, Checked.val_zero, Checked.add_zero,
    Checked.sub_zero, Checked.max_zero, FillerTerms.payoutWithin_of_no_take, bind_map_left]
  rfl

/-- The filler's reward off the gross fee is wanted and defined, and exceeds the fee. -/
structure Overpays (f : VenueFill) (s : Schedule) (fee : U128) : Prop where
  gross : s.grossFee f.quoteAmount = .ok fee
  wanted : f.rewardFiller = true
  exceeds : ∃ reward, (s.filler.payout fee f.orderTs f.now).result = .ok reward ∧
    fee.val < reward.val

theorem Overpays.fee_eq {fee' : U128} (o : f.Overpays s fee')
    (gross : s.grossFee f.quoteAmount = .ok fee) : fee = fee' :=
  Except.ok.inj (gross.symm.trans o.gross)

/-- Once there are a gross fee and a reward, only their order matters: a reward that is not wanted
is zero. -/
theorem overpays_iff {reward : U128} (gross : s.grossFee f.quoteAmount = .ok fee)
    (paid : (s.filler.payoutIf f.rewardFiller fee f.orderTs f.now).result = .ok reward) :
    f.Overpays s fee ↔ fee.val < reward.val := by
  constructor
  · intro o
    obtain ⟨defined, payout, exceeds⟩ := o.exceeds
    simp only [FillerTerms.payoutIf, o.wanted, if_true, payout, Except.ok.injEq] at paid
    exact paid ▸ exceeds
  · intro exceeds
    cases wanted : f.rewardFiller with
    | true => exact ⟨gross, wanted, reward, by rwa [wanted] at paid, exceeds⟩
    | false =>
      rw [wanted] at paid
      obtain rfl : .zero = reward := Except.ok.inj paid
      exact absurd fee.nonneg (Int.not_le_of_gt exceeds)

theorem not_overpays {reward : U128} (gross : s.grossFee f.quoteAmount = .ok fee)
    (paid : (s.filler.payoutIf f.rewardFiller fee f.orderTs f.now).result = .ok reward)
    (covered : reward.val ≤ fee.val) : ¬ ∃ fee, f.Overpays s fee := by
  rintro ⟨fee', o⟩
  obtain rfl := o.fee_eq gross
  exact absurd covered (Int.not_le_of_gt ((overpays_iff gross paid).mp o))

/-- How an order can end with the market's own maker and on a venue that takes nothing. -/
inductive Ends (f : VenueFill) (s : Schedule) :
    Except Error FillBreakdown → Except Error VenueBreakdown → Prop where
  | filled {b : FillBreakdown} {v : VenueBreakdown} (gives : v.Gives b)
      (covered : ¬ ∃ fee, f.Overpays s fee) : Ends f s (.ok b) (.ok v)
  | failed (e : Error) (covered : ¬ ∃ fee, f.Overpays s fee) : Ends f s (.error e) (.error e)
  | overpaid {fee : U128} (overpays : f.Overpays s fee) (fault : ArithmeticFault) :
      Ends f s (.error (.arithmetic fault))
        (.ok { userFee := fee, feeToMarket := .zero, feePoolDelta := .zero, fillerReward := fee })

theorem ends (f : VenueFill) (s : Schedule) :
    f.Ends s (f.againstAmm.fees s).result (f.withoutTake.fees s).result := by
  rw [fees_againstAmm, fees_withoutTake]
  cases gross : s.grossFee f.quoteAmount with
  | error e =>
    refine .failed e fun ⟨fee, o⟩ => ?_
    cases gross.symm.trans o.gross
  | ok fee =>
    simp only [ok_bind]
    cases paid : (s.filler.payoutIf f.rewardFiller fee f.orderTs f.now).result with
    | error e =>
      refine .failed e fun ⟨fee', o⟩ => ?_
      obtain rfl := o.fee_eq gross
      obtain ⟨reward, payout, _⟩ := o.exceeds
      rw [FillerTerms.payoutIf, o.wanted, if_pos rfl, payout] at paid
      cases paid
    | ok reward =>
      simp only [ok_bind]
      have nonneg := reward.nonneg
      -- The unsigned difference parts the two: where it exists, the reward is not cut.
      obtain ⟨left, unpaid, leftVal⟩ | ⟨short, refused⟩ := fee.sub_outcome reward.val
      · have covered : reward.val ≤ fee.val := by
          have := left.nonneg
          omega
        have inFull : reward.min fee = reward := if_pos covered
        have within := not_overpays gross paid covered
        simp only [inFull, unpaid, ok_bind]
        cases moved : left.cast .i128 with
        | error e => exact .failed e within
        | ok toMarket => exact .filled ⟨rfl, rfl, (Checked.cast_eq_ok.mp moved).symm, rfl⟩ within
      · have exceeds : fee.val < reward.val := by
          have := fee.le_hi
          by_contra covered
          exact short ⟨Int.sub_nonneg_of_le (Int.not_lt.mp covered), by omega⟩
        have cut : reward.min fee = fee := if_neg (Int.not_le_of_gt exceeds)
        have nothing : fee.sub fee.val = .ok .zero := Checked.sub_eq_ok.mpr (Int.sub_self _).symm
        rw [refused, error_bind, cut, nothing]
        exact .overpaid ((overpays_iff gross paid).mpr exceeds) _

end VenueFill

theorem VenueTrade.againstAmm_fails (t : VenueTrade) (s : FeeSchedule U128) :
    Arithmetical [t.quoteAmount, t.orderTs, t.now]
      (t.fill.againstAmm.fees (s.map .plain)).result := by
  let order : AmmTrade := ⟨⟨t.quoteAmount, t.orderTs, t.now, t.rewardFiller, false⟩, 0, false⟩
  refine .of_failsOnly fun _ arithmetic long =>
    order.fees_failsOnly arithmetic (Term.readsOnly_map_plain s) ?_
  have noSurplus : Text.IsShort order.surplus := (Width.holds_zero .i128).isShort
  simp only [AmmTrade.given, List.forall_mem_cons, List.not_mem_nil, false_implies, implies_true,
    and_true] at long ⊢
  exact ⟨long.1, long.2.1, long.2.2, fun long => absurd noSurplus long⟩

theorem VenueTrade.both_of_long (t : VenueTrade) (s : FeeSchedule U128)
    (long : ¬ Text.IsShort t.quoteAmount) :
    (t.fill.againstAmm.fees (s.map .plain)).result = .error .longInteger ∧
      (t.fill.withoutTake.fees (s.map .plain)).result = .error .longInteger := by
  let order : AmmTrade := ⟨⟨t.quoteAmount, t.orderTs, t.now, t.rewardFiller, false⟩, 0, false⟩
  let alone : VenueTrade := { t with venueFee := 0, referrerRebate := 0, feePool := 0 }
  exact ⟨order.fees_of_long_amount rfl (Width.holds_zero _) long _, alone.fees_of_long long _⟩

/-- Of one order of plain integers over a plain schedule: where the market's own maker returns, a
venue that takes nothing gives the same; where it fails, the venue fails alike, except exactly if
the filler's reward is defined and exceeds the gross fee, which then goes to the filler in full.
Both fail by arithmetic, or because an integer that they are given is too long to be written, as
they do if the amount is. -/
theorem VenueTrade.no_take_agrees_with_amm (t : VenueTrade) (s : FeeSchedule U128) :
    (∀ b, (t.fill.againstAmm.fees (s.map .plain)).result = .ok b →
      ∃ v, (t.fill.withoutTake.fees (s.map .plain)).result = .ok v ∧ v.Gives b) ∧
    (∀ e, (t.fill.againstAmm.fees (s.map .plain)).result = .error e →
      (¬ ∃ fee, t.fill.Overpays (s.map .plain) fee) →
        (t.fill.withoutTake.fees (s.map .plain)).result = .error e ∧
          ((∃ fault, e = .arithmetic fault) ∨
            e = .longInteger ∧ ∃ n ∈ [t.quoteAmount, t.orderTs, t.now], ¬ Text.IsShort n)) ∧
    (¬ Text.IsShort t.quoteAmount →
      (t.fill.againstAmm.fees (s.map .plain)).result = .error .longInteger ∧
        (t.fill.withoutTake.fees (s.map .plain)).result = .error .longInteger) ∧
    ∀ fee, t.fill.Overpays (s.map .plain) fee →
      (∃ fault, (t.fill.againstAmm.fees (s.map .plain)).result = .error (.arithmetic fault)) ∧
      (t.fill.withoutTake.fees (s.map .plain)).result =
        .ok { userFee := fee, feeToMarket := .zero, feePoolDelta := .zero, fillerReward := fee } := by
  have ends := t.fill.ends (s.map .plain)
  have amm := againstAmm_fails t s
  have long := both_of_long t s
  generalize (t.fill.againstAmm.fees (s.map .plain)).result = byAmm at ends amm long ⊢
  generalize (t.fill.withoutTake.fees (s.map .plain)).result = onVenue at ends long ⊢
  cases ends with
  | filled gives covered =>
    refine ⟨fun _ returned => ?_, fun _ failed => ?_, long, fun fee o => absurd ⟨fee, o⟩ covered⟩
    · obtain rfl := Except.ok.inj returned
      exact ⟨_, rfl, gives⟩
    · cases failed
  | failed e covered =>
    refine ⟨fun _ returned => ?_, fun e' failed _ => ?_, long, fun fee o => absurd ⟨fee, o⟩ covered⟩
    · cases returned
    · obtain rfl := Except.error.inj failed
      exact ⟨rfl, amm e rfl⟩
  | @overpaid fee overpays fault =>
    refine ⟨fun _ returned => ?_, fun _ _ covered => absurd ⟨fee, overpays⟩ covered, long,
      fun fee' o => ?_⟩
    · cases returned
    · obtain rfl : fee = fee' := Except.ok.inj (overpays.gross.symm.trans o.gross)
      exact ⟨⟨fault, rfl⟩, rfl⟩

/-- A reward of up to twice the fee takes all of a fee of fifty on the venue, and the market's own
maker fails. -/
theorem VenueTrade.reward_takes_whole_fee :
    let t : VenueTrade := ⟨50000, 0, 1, true, 0, 0, 0⟩
    let s := { FeeSchedule.standard with filler.reward := ⟨⟨2, by decide, by decide⟩, .one⟩ }
    (∃ fault, (t.fill.againstAmm.fees (s.map .plain)).result = .error (.arithmetic fault)) ∧
    ∃ v, (t.fill.withoutTake.fees (s.map .plain)).result = .ok v ∧ v.fillerReward.val = 50 ∧
      v.feeToMarket.val = 0 := by
  intro t s
  have times : s.filler.Times 0 1 ageRootScale := FillerTerms.times_one_tick (by decide)
  have overpays : t.fill.Overpays (s.map .plain) ⟨50, by decide, by decide⟩ :=
    ⟨rfl, rfl, ⟨100, by decide, by decide⟩, FillerTerms.payout_plain_iff.mpr
      ⟨⟨by decide, by decide⟩, _, times, by decide⟩, by decide⟩
  obtain ⟨failed, paid⟩ := (no_take_agrees_with_amm t s).2.2.2 _ overpays
  exact ⟨failed, _, paid, rfl, rfl⟩

/-- An amount with a digit more than are written fails otherwise than by arithmetic, with the
market's own maker and on the venue. -/
theorem VenueTrade.long_amount_without_take :
    let t : VenueTrade := ⟨10 ^ Text.digitLimit, 0, 0, false, 0, 0, 0⟩
    let s := FeeSchedule.standard.map .plain
    (t.fill.againstAmm.fees s).result = .error .longInteger ∧
      (t.fill.withoutTake.fees s).result = .error .longInteger :=
  both_of_long _ _ Text.not_isShort_pow

end ExchangeFees

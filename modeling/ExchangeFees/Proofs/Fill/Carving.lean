import ExchangeFees.Proofs.Checked.Limits
import ExchangeFees.Proofs.Fill.Amm
import ExchangeFees.Proofs.Fill.Venue
import ExchangeFees.Proofs.Reward.Curve

/-! Rewards are carved off the gross fee, each on its own. A fill that pays one reward less keeps
everything else and leaves what was not paid with the market, a discount that is not given also
with the user's fee. Where the fill with the reward returns, the one without it can only fail
because the market's larger amount does not fit the signed width. Schedules and values are
arbitrary. -/
namespace ExchangeFees

/-- What becomes of a breakdown when the filler is not rewarded: the reward stays with the
market. -/
structure FillBreakdown.KeepsReward (rewarded kept : FillBreakdown) : Prop where
  userFee : kept.userFee = rewarded.userFee
  makerRebate : kept.makerRebate = rewarded.makerRebate
  feeToMarket : kept.feeToMarket.val = rewarded.feeToMarket.val + rewarded.fillerReward.val
  fillerReward : kept.fillerReward = .zero
  refereeDiscount : kept.refereeDiscount = rewarded.refereeDiscount
  referrerReward : kept.referrerReward = rewarded.referrerReward

/-- What becomes of a breakdown when there is no referral: the discount stays with the user's fee
and, with the referrer's reward, with the market. -/
structure FillBreakdown.KeepsReferral (referred kept : FillBreakdown) : Prop where
  userFee : kept.userFee.val = referred.userFee.val + referred.refereeDiscount.val
  makerRebate : kept.makerRebate = referred.makerRebate
  feeToMarket : kept.feeToMarket.val =
    referred.feeToMarket.val + referred.refereeDiscount.val + referred.referrerReward.val
  fillerReward : kept.fillerReward = referred.fillerReward
  refereeDiscount : kept.refereeDiscount = .zero
  referrerReward : kept.referrerReward = .zero

/-- What becomes of a breakdown on an outside venue when the filler is not rewarded: the reward
stays with the market and in the pool. -/
structure VenueBreakdown.KeepsReward (rewarded kept : VenueBreakdown) : Prop where
  userFee : kept.userFee = rewarded.userFee
  feeToMarket : kept.feeToMarket.val = rewarded.feeToMarket.val + rewarded.fillerReward.val
  feePoolDelta : kept.feePoolDelta.val = rewarded.feePoolDelta.val + rewarded.fillerReward.val
  fillerReward : kept.fillerReward = .zero

namespace MatchedFill

variable {f : MatchedFill} {s : Schedule} {fee : U128} {b : FillBreakdown}

/-- A fill that returns also returns without the filler's reward, as long as the market can keep
it. -/
theorem Distributes.unrewarded (d : f.Distributes s fee b) :
    LimitedBy [b.feeToMarket.val + b.fillerReward.val] b.KeepsReward
      ({ f with rewardFiller := false }.fees s).result := by
  have nonneg := d.toMarket_nonneg
  have toMarket := d.toMarket
  have reward := b.fillerReward.nonneg
  have referrer := b.referrerReward.nonneg
  have rebate := b.makerRebate.nonneg
  have kept : b.feeToMarket.val + b.fillerReward.val =
      b.userFee.val - 0 - b.referrerReward.val - b.makerRebate.val := by omega
  have unpaid : (s.filler.payoutIf false fee f.orderTs f.now).result = .ok .zero := rfl
  rw [fees_of_covered (f := { f with rewardFiller := false }) d.gross d.rebate d.referral
    d.userFee unpaid kept (by omega)]
  have fits : Width.u128.Holds (b.feeToMarket.val + b.fillerReward.val) :=
    b.userFee.holds_of_le (by omega) (by omega)
  exact (LimitedBy.castInt fits).bind fun m value => .ok ⟨rfl, rfl, value, rfl, rfl, rfl⟩

/-- A fill that returns also returns without a referral, as long as the market can keep what the
referral gave away. -/
theorem Distributes.unreferred (d : f.Distributes s fee b) :
    LimitedBy [b.feeToMarket.val + b.refereeDiscount.val + b.referrerReward.val] b.KeepsReferral
      ({ f with rewardReferrer := false }.fees s).result := by
  have nonneg := d.toMarket_nonneg
  have toMarket := d.toMarket
  have userFee : fee.val = b.userFee.val + b.refereeDiscount.val := by
    rw [d.userFee, Int.sub_add_cancel]
  have discount := b.refereeDiscount.nonneg
  have reward := b.referrerReward.nonneg
  have filler := b.fillerReward.nonneg
  have rebate := b.makerRebate.nonneg
  have kept : b.feeToMarket.val + b.refereeDiscount.val + b.referrerReward.val =
      fee.val - b.fillerReward.val - 0 - b.makerRebate.val := by omega
  have unshared : s.referral.sharesIf false fee = .ok ⟨.zero, .zero⟩ := rfl
  rw [fees_of_covered (f := { f with rewardReferrer := false }) d.gross d.rebate unshared
    (Int.sub_zero _).symm d.filler kept (by omega)]
  have fits : Width.u128.Holds
      (b.feeToMarket.val + b.refereeDiscount.val + b.referrerReward.val) :=
    fee.holds_of_le (by omega) (by omega)
  exact (LimitedBy.castInt fits).bind fun m value => .ok ⟨userFee, rfl, value, rfl, rfl, rfl⟩

end MatchedFill

namespace AmmFill

variable {f : AmmFill} {s : Schedule} {surplus : I128} {fee : U128} {b : FillBreakdown}

/-- A taker's fill that returns also returns without the filler's reward, as long as the market can
keep it both without and with the surplus. -/
theorem Distributes.unrewarded (d : f.Distributes s surplus fee b) :
    LimitedBy [b.feeToMarketForLp.val + b.fillerReward.val, b.feeToMarket.val + b.fillerReward.val]
      (fun c => b.KeepsReward c ∧
        c.feeToMarketForLp.val = b.feeToMarketForLp.val + b.fillerReward.val)
      ({ f with rewardFiller := false }.takerFees s surplus).result := by
  have nonneg := d.forLp_nonneg
  have forLp := d.forLp
  have toMarket := d.toMarket
  have low := surplus.lo_le
  have reward := b.fillerReward.nonneg
  have referrer := b.referrerReward.nonneg
  have kept : b.feeToMarketForLp.val + b.fillerReward.val =
      b.userFee.val - 0 - b.referrerReward.val := by omega
  have unpaid : (s.filler.payoutIf false fee f.orderTs f.now).result = .ok .zero := rfl
  rw [takerFees_of_covered (f := { f with rewardFiller := false }) d.gross d.referral d.userFee
    unpaid kept (by omega)]
  have fits : Width.u128.Holds (b.feeToMarketForLp.val + b.fillerReward.val) :=
    b.userFee.holds_of_le (by omega) (by omega)
  refine (LimitedBy.castInt fits).bind fun forLp value => ?_
  have sum : b.feeToMarket.val + b.fillerReward.val = forLp.val + surplus.val := by omega
  rw [sum]
  exact (LimitedBy.add (by omega)).bind fun m added =>
    .ok ⟨⟨rfl, d.makerRebate.symm, added.trans sum.symm, rfl, rfl, rfl⟩, value⟩

/-- A taker's fill that returns also returns without a referral, as long as the market can keep
what the referral gave away both without and with the surplus. -/
theorem Distributes.unreferred (d : f.Distributes s surplus fee b) :
    LimitedBy [b.feeToMarketForLp.val + b.refereeDiscount.val + b.referrerReward.val,
        b.feeToMarket.val + b.refereeDiscount.val + b.referrerReward.val]
      (fun c => b.KeepsReferral c ∧ c.feeToMarketForLp.val =
        b.feeToMarketForLp.val + b.refereeDiscount.val + b.referrerReward.val)
      ({ f with rewardReferrer := false }.takerFees s surplus).result := by
  have nonneg := d.forLp_nonneg
  have forLp := d.forLp
  have toMarket := d.toMarket
  have userFee : fee.val = b.userFee.val + b.refereeDiscount.val := by
    rw [d.userFee, Int.sub_add_cancel]
  have low := surplus.lo_le
  have discount := b.refereeDiscount.nonneg
  have reward := b.referrerReward.nonneg
  have filler := b.fillerReward.nonneg
  have kept : b.feeToMarketForLp.val + b.refereeDiscount.val + b.referrerReward.val =
      fee.val - b.fillerReward.val - 0 := by omega
  have unshared : s.referral.sharesIf false fee = .ok ⟨.zero, .zero⟩ := rfl
  rw [takerFees_of_covered (f := { f with rewardReferrer := false }) d.gross unshared
    (Int.sub_zero _).symm d.filler kept (by omega)]
  have fits : Width.u128.Holds
      (b.feeToMarketForLp.val + b.refereeDiscount.val + b.referrerReward.val) :=
    fee.holds_of_le (by omega) (by omega)
  refine (LimitedBy.castInt fits).bind fun forLp value => ?_
  have sum : b.feeToMarket.val + b.refereeDiscount.val + b.referrerReward.val =
      forLp.val + surplus.val := by omega
  rw [sum]
  exact (LimitedBy.add (by omega)).bind fun m added =>
    .ok ⟨⟨userFee, d.makerRebate.symm, added.trans sum.symm, rfl, rfl, rfl⟩, value⟩

end AmmFill

namespace VenueFill

variable {f : VenueFill} {s : Schedule} {fee venueFee rebate pool : U128} {b : VenueBreakdown}

/-- A fill that returns also returns without the filler's reward, as long as the signed width holds
what the market then keeps. -/
theorem Distributes.unrewarded (d : f.Distributes s fee venueFee rebate pool b) :
    LimitedBy [b.feeToMarket.val + b.fillerReward.val] b.KeepsReward
      ({ f with rewardFiller := false }.fees s).result := by
  have toMarket := d.toMarket
  have delta := d.delta
  have venueFeeNonneg := venueFee.nonneg
  have rebateNonneg := rebate.nonneg
  have rebateFits := d.rebate_fits
  have low := Width.i128_lo_eq
  have reward := b.fillerReward.nonneg
  have nonneg := b.feeToMarket.nonneg
  obtain ⟨left, value⟩ :=
    b.userFee.exists_le (n := b.feeToMarket.val + b.fillerReward.val) (by omega) (by omega)
  have kept : left.val = b.userFee.val - venueFee.val - 0 := by omega
  have unpaid : s.filler.PaysWithin false b.userFee
      (max (b.userFee.val - venueFee.val - rebate.val) pool.val) f.orderTs f.now .zero := rfl
  rw [fees_of_covered (f := { f with rewardFiller := false }) d.gross d.readVenueFee d.readRebate
    d.readPool d.taken d.userFee unpaid kept d.rebate_fits, ← value]
  refine (LimitedBy.castInt left.holds).bind fun signed moved => ?_
  have fits := signed.le_hi
  obtain ⟨change, changeVal⟩ := Checked.exists_val.mpr
    (⟨by omega, by omega⟩ : Width.i128.Holds (signed.val - rebate.val))
  rw [Checked.sub_eq_ok.mpr changeVal, ok_bind]
  exact .ok ⟨rfl, value, by dsimp only; omega, rfl⟩

end VenueFill

/-- The filler's reward and the referral's two shares are each carved off the gross fee. Where a
fill returns with one of them, the same fill without it returns unless a market's amount that keeps
it, before or after any surplus, exceeds the signed width; it then differs by what was not paid in
the market's amounts, and by the discount in the user's fee, and in nothing else. -/
theorem FeeSchedule.rewards_carved_independently (s : Schedule) :
    (∀ (f : MatchedFill) b, ({ f with rewardFiller := true }.fees s).result = .ok b →
      LimitedBy [b.feeToMarket.val + b.fillerReward.val] b.KeepsReward
        ({ f with rewardFiller := false }.fees s).result) ∧
    (∀ (f : MatchedFill) b, ({ f with rewardReferrer := true }.fees s).result = .ok b →
      LimitedBy [b.feeToMarket.val + b.refereeDiscount.val + b.referrerReward.val] b.KeepsReferral
        ({ f with rewardReferrer := false }.fees s).result) ∧
    (∀ (f : AmmFill) b, f.postOnly = false →
      ({ f with rewardFiller := true }.fees s).result = .ok b →
        LimitedBy
          [b.feeToMarketForLp.val + b.fillerReward.val, b.feeToMarket.val + b.fillerReward.val]
          (fun c => b.KeepsReward c ∧
            c.feeToMarketForLp.val = b.feeToMarketForLp.val + b.fillerReward.val)
          ({ f with rewardFiller := false }.fees s).result) ∧
    (∀ (f : AmmFill) b, f.postOnly = false →
      ({ f with rewardReferrer := true }.fees s).result = .ok b →
        LimitedBy
          [b.feeToMarketForLp.val + b.refereeDiscount.val + b.referrerReward.val,
            b.feeToMarket.val + b.refereeDiscount.val + b.referrerReward.val]
          (fun c => b.KeepsReferral c ∧ c.feeToMarketForLp.val =
            b.feeToMarketForLp.val + b.refereeDiscount.val + b.referrerReward.val)
          ({ f with rewardReferrer := false }.fees s).result) ∧
    ∀ (f : VenueFill) b, ({ f with rewardFiller := true }.fees s).result = .ok b →
      LimitedBy [b.feeToMarket.val + b.fillerReward.val] b.KeepsReward
        ({ f with rewardFiller := false }.fees s).result := by
  refine ⟨?matchedFiller, ?matchedReferral, ?ammFiller, ?ammReferral, ?venueFiller⟩
  case matchedFiller =>
    intro f b returned
    obtain ⟨fee, d⟩ := MatchedFill.fees_eq_ok.mp returned
    exact d.unrewarded
  case matchedReferral =>
    intro f b returned
    obtain ⟨fee, d⟩ := MatchedFill.fees_eq_ok.mp returned
    exact d.unreferred
  case ammFiller =>
    intro f b taker returned
    obtain ⟨surplus, fee, read, d⟩ :=
      AmmFill.exists_distributes (f := { f with rewardFiller := true }) taker returned
    rw [AmmFill.fees_of_taker (f := { f with rewardFiller := false }) taker read]
    exact d.unrewarded
  case ammReferral =>
    intro f b taker returned
    obtain ⟨surplus, fee, read, d⟩ :=
      AmmFill.exists_distributes (f := { f with rewardReferrer := true }) taker returned
    rw [AmmFill.fees_of_taker (f := { f with rewardReferrer := false }) taker read]
    exact d.unreferred
  case venueFiller =>
    intro f b returned
    obtain ⟨fee, venueFee, rebate, pool, d⟩ := VenueFill.fees_eq_ok.mp returned
    exact d.unrewarded

/-- A tenth of a fee of fifty thousand goes to the filler of an order one tick old, and without it
to the market. Next to a surplus of minus one the market can keep a fee one beyond the signed width
only after a referral, although its own part would fit. -/
theorem FeeSchedule.carved_up_to_the_bound :
    let t := MatchedTrade.fill ⟨50000000, 0, 1, true, false⟩
    let f := AmmTrade.fill ⟨⟨Width.i128.hi + 1, 0, 0, false, true⟩, -1, false⟩
    let hundredth : Ratio U128 := ⟨.one, ⟨100, by decide, by decide⟩⟩
    let s : FeeSchedule U128 :=
      ⟨⟨.one, .one⟩, ⟨.one, .one⟩, ⟨hundredth, hundredth⟩, .standard⟩
    (∃ b c, (t.fees (FeeSchedule.standard.map .plain)).result = .ok b ∧
      ({ t with rewardFiller := false }.fees (FeeSchedule.standard.map .plain)).result = .ok c ∧
      b.fillerReward.val = 5000 ∧ b.feeToMarket.val = 15000 ∧ c.feeToMarket.val = 20000) ∧
    (∃ b, (f.fees (s.map .plain)).result = .ok b ∧ b.feeToMarket.val + b.refereeDiscount.val +
      b.referrerReward.val = Width.i128.hi) ∧
    ¬ ∃ c, ({ f with rewardReferrer := false }.fees (s.map .plain)).result = .ok c := by
  intro t f hundredth s
  refine ⟨?rewarded, ?referred⟩
  case rewarded =>
    have rewarded : FeeSchedule.standard.filler.reward? 50000 0 1 = some 5000 :=
      FillerTerms.reward?_eq_some_iff.mpr ⟨⟨by decide, by decide⟩, ⟨by decide, by decide⟩, _,
        FillerTerms.times_one_tick (by decide), by decide⟩
    have settles : MatchedTrade.Settles ⟨50000000, 0, 1, true, false⟩ .standard 5000 :=
      ⟨⟨by decide, by decide⟩, ⟨by decide, by decide⟩, ⟨by decide, by decide⟩, nofun, rewarded,
        by decide, by decide⟩
    obtain ⟨b, described⟩ := settles.exists_describes
    have returned := MatchedTrade.fees_plain_eq_ok.mpr ⟨5000, settles, described⟩
    have reward : b.fillerReward.val = 5000 := described.fillerReward
    have market : b.feeToMarket.val = 15000 := described.feeToMarket
    have limited := (rewards_carved_independently (FeeSchedule.standard.map .plain)).1 t b returned
    have fits : b.feeToMarket.val + b.fillerReward.val ≤ Width.i128.hi := by
      rw [market, reward]
      decide
    obtain ⟨c, kept⟩ := limited.returns.mpr (List.forall_mem_singleton.mpr fits)
    have whole := (limited.described c kept).feeToMarket
    exact ⟨b, c, returned, kept, reward, market, by omega⟩
  case referred =>
    refine ⟨⟨_, rfl, by decide⟩, fun returned => ?_⟩
    have limited := (rewards_carved_independently (s.map .plain)).2.2.2.1 f _ rfl rfl
    have fits := limited.returns.mp returned _ List.mem_cons_self
    exact absurd fits (by decide)

end ExchangeFees

import ExchangeFees.Breakdown
import ExchangeFees.Filler

/-!
Fills between a taker's order and a maker's resting order. Rebate, referral and reward are all taken
off the gross fee, and what is left for the market may not be negative: a schedule that gives away
more than the fee fails and is never cut to zero.
-/
namespace ExchangeFees

structure MatchedFill where
  quoteAmount : Value
  orderTs : Value
  now : Value
  rewardFiller : Bool
  rewardReferrer : Bool

def MatchedFill.fees (f : MatchedFill) (s : Schedule) : Traced FillBreakdown := do
  let fee ← s.grossFee f.quoteAmount
  let rebate ← s.makerRebate.share fee
  let referral ← s.referral.sharesIf f.rewardReferrer fee
  let takerFee ← fee.sub referral.refereeDiscount.val
  let filler ← s.filler.payoutIf f.rewardFiller fee f.orderTs f.now
  let left ← takerFee.sub filler.val
  let left ← left.sub referral.referrerReward.val
  let left ← left.sub rebate.val
  let toMarket ← left.cast .i128
  Traced.log (.matched fee takerFee rebate filler referral.referrerReward toMarket)
  return { userFee := takerFee, makerRebate := rebate, feeToMarket := toMarket,
           feeToMarketForLp := .zero, fillerReward := filler,
           refereeDiscount := referral.refereeDiscount, referrerReward := referral.referrerReward }

end ExchangeFees

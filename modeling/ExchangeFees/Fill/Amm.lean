import ExchangeFees.Breakdown
import ExchangeFees.Filler

/-!
Fills against the market's own maker. A taker pays the gross fee less the referee discount, and the
market keeps what the filler and the referrer leave, with the surplus that the maker captured or
lost on top; liquidity providers are counted without the surplus. Where the market's maker filled a
resting order, the surplus is the whole fee: the user pays nothing and only the filler takes a
share.
-/
namespace ExchangeFees

structure AmmFill where
  quoteAmount : Value
  orderTs : Value
  now : Value
  rewardFiller : Bool
  rewardReferrer : Bool
  surplus : Value
  postOnly : Bool

namespace AmmFill

/-- The fees when the order rested: the surplus is the fee, and may not be negative. -/
def postOnlyFees (f : AmmFill) (s : Schedule) (surplus : I128) : Traced FillBreakdown := do
  let fee ← surplus.cast .u128
  let filler ← s.filler.payoutIf f.rewardFiller fee f.orderTs f.now
  let toMarket ← (← fee.sub filler.val).cast .i128
  Traced.log (.ammPostOnly surplus filler toMarket)
  return { userFee := .zero, makerRebate := .zero, feeToMarket := toMarket,
           feeToMarketForLp := .zero, fillerReward := filler, refereeDiscount := .zero,
           referrerReward := .zero }

def takerFees (f : AmmFill) (s : Schedule) (surplus : I128) : Traced FillBreakdown := do
  let fee ← s.grossFee f.quoteAmount
  let referral ← s.referral.sharesIf f.rewardReferrer fee
  let userFee ← fee.sub referral.refereeDiscount.val
  let filler ← s.filler.payoutIf f.rewardFiller fee f.orderTs f.now
  let left ← userFee.sub filler.val
  let left ← left.sub referral.referrerReward.val
  let left ← left.cast .i128
  let toMarket ← left.add surplus.val
  let forLp ← toMarket.sub surplus.val
  Traced.log (.amm fee userFee filler referral.referrerReward surplus toMarket forLp)
  return { userFee, makerRebate := .zero, feeToMarket := toMarket, feeToMarketForLp := forLp,
           fillerReward := filler, refereeDiscount := referral.refereeDiscount,
           referrerReward := referral.referrerReward }

def fees (f : AmmFill) (s : Schedule) : Traced FillBreakdown := do
  let surplus ← Checked.of .i128 f.surplus
  if f.postOnly then f.postOnlyFees s surplus else f.takerFees s surplus

end AmmFill
end ExchangeFees

import ExchangeFees.Breakdown
import ExchangeFees.Filler

/-!
Fills on an outside venue, which has taken its own fee and paid its own referrer. The user pays at
least what the venue took. The filler's reward is the usual one off the user's fee, but no more than
the larger of what the fill left above the venue's take and what the fee pool holds. The pool
changes by what the market keeps less the rebate that the venue paid.
-/
namespace ExchangeFees

structure VenueFill where
  quoteAmount : Value
  orderTs : Value
  now : Value
  rewardFiller : Bool
  venueFee : Value
  referrerRebate : Value
  feePool : Value

/-- The reward that the filler can have at once, off the user's fee. -/
def FillerTerms.payoutWithin (t : FillerTerms Term) (wanted : Bool) (userFee taken pool : U128)
    (orderTs now : Value) : Traced U128 :=
  if wanted then do
    let excess ← userFee.sub taken.val
    let reward ← t.payout userFee orderTs now
    return reward.min (excess.max pool)
  else pure .zero

def VenueFill.fees (f : VenueFill) (s : Schedule) : Traced VenueBreakdown := do
  let fee ← s.grossFee f.quoteAmount
  let venueFee ← Checked.of .u128 f.venueFee
  let rebate ← Checked.of .u128 f.referrerRebate
  let pool ← Checked.of .u128 f.feePool
  let taken ← venueFee.add rebate.val
  let userFee := fee.max taken
  let filler ← s.filler.payoutWithin f.rewardFiller userFee taken pool f.orderTs f.now
  let left ← userFee.sub venueFee.val
  let toMarket ← left.sub filler.val
  let toMarketSigned ← toMarket.cast .i128
  let rebateSigned ← rebate.cast .i128
  let poolDelta ← toMarketSigned.sub rebateSigned.val
  Traced.log (.venue fee userFee venueFee rebate pool filler toMarket poolDelta)
  return { userFee, feeToMarket := toMarket, feePoolDelta := poolDelta, fillerReward := filler }

end ExchangeFees

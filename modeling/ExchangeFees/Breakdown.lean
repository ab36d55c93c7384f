import ExchangeFees.Checked

/-!
Fee breakdowns: who pays and who receives what in one fill. The fields carry the widths that bound
them, so a breakdown in hand is in range.
-/
namespace ExchangeFees

structure FillBreakdown where
  /-- What the taker pays, net of the referee discount. -/
  userFee : U128
  makerRebate : U128
  /-- What the market keeps, with any surplus. -/
  feeToMarket : I128
  /-- What the market keeps for its liquidity providers, without the surplus. -/
  feeToMarketForLp : I128
  fillerReward : U128
  refereeDiscount : U128
  referrerReward : U128
  deriving DecidableEq

structure VenueBreakdown where
  userFee : U128
  feeToMarket : U128
  /-- The change of the fee pool. -/
  feePoolDelta : I128
  fillerReward : U128
  deriving DecidableEq

end ExchangeFees

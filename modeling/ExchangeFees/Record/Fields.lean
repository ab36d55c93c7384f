import ExchangeFees.Value

/-!
The fields of records, by name and in order. A record's fields say all there is to it but its kind.
-/
namespace ExchangeFees

def RecordKind.fieldNames : RecordKind → List String
  | schedule => ["fee_numerator", "fee_denominator", "maker_rebate_numerator",
      "maker_rebate_denominator", "referral_discount", "filler_reward_structure"]
  | referral => ["referrer_reward_numerator", "referrer_reward_denominator",
      "referee_discount_numerator", "referee_discount_denominator"]
  | filler => ["reward_numerator", "reward_denominator", "time_based_reward_lower_bound"]
  | fill => ["user_fee", "maker_rebate", "fee_to_market", "fee_to_market_for_lp", "filler_reward",
      "referee_discount", "referrer_reward"]
  | venueFill => ["user_fee", "fee_to_market", "fee_pool_delta", "filler_reward"]

def Record.fieldValues : Record → List Value
  | checked _ n => [.int n.val]
  | schedule s => [s.fee.numerator.toValue, s.fee.denominator.toValue, s.makerRebate.numerator.toValue,
      s.makerRebate.denominator.toValue, .record (.referral s.referral), .record (.filler s.filler)]
  | referral t => [t.referrerReward.numerator.toValue, t.referrerReward.denominator.toValue,
      t.refereeDiscount.numerator.toValue, t.refereeDiscount.denominator.toValue]
  | filler t => [t.reward.numerator.toValue, t.reward.denominator.toValue, t.lowerBound.toValue]
  | fill b => [b.userFee.val, b.makerRebate.val, b.feeToMarket.val, b.feeToMarketForLp.val,
      b.fillerReward.val, b.refereeDiscount.val, b.referrerReward.val].map Value.int
  | venueFill b =>
    [b.userFee.val, b.feeToMarket.val, b.feePoolDelta.val, b.fillerReward.val].map Value.int

/-- The names of the fields of a kind of record; other values have none. -/
def Kind.fieldNames : Kind → List String
  | .record r => r.fieldNames
  | .checked _ => ["value"]
  | _ => []

def Record.fields (r : Record) : Entries := r.kind.fieldNames.zip r.fieldValues

end ExchangeFees

import ExchangeFees.Checked.Operand

/-!
Shares of an amount. A ratio of an amount is the product with the numerator cut by the denominator,
so it is rounded down. The product is taken first and has to fit, even where the share itself would;
the denominator is looked at after that. A gross fee is the fee ratio of what is traded.
-/
namespace ExchangeFees

def Ratio.take (r : Ratio Value) (amount : U128) : Except Error U128 := do
  let n ← Checked.of .u128 r.numerator
  let product ← amount.mul n.val
  let d ← Checked.of .u128 r.denominator
  product.div d.val

def Ratio.share (r : Ratio Term) (amount : U128) : Except Error U128 :=
  (r.map Term.toValue).take amount

/-- The share of a value that a ratio of values takes. -/
def proportion (value numerator denominator : Value) : Except Error U128 := do
  Ratio.take ⟨numerator, denominator⟩ (← Checked.of .u128 value)

def FeeSchedule.grossFee (s : Schedule) (quoteAmount : Value) : Except Error U128 := do
  s.fee.share (← Checked.of .u128 quoteAmount)

structure ReferralShares where
  referrerReward : U128
  refereeDiscount : U128

/-- Both shares of a referral, each off the same gross fee. -/
def ReferralTerms.shares (t : ReferralTerms Term) (fee : U128) : Except Error ReferralShares := do
  let reward ← t.referrerReward.share fee
  let discount ← t.refereeDiscount.share fee
  return ⟨reward, discount⟩

def ReferralTerms.sharesOf (t : ReferralTerms Term) (fee : Value) :
    Except Error ReferralShares := do
  t.shares (← Checked.of .u128 fee)

def ReferralTerms.sharesIf (t : ReferralTerms Term) (referred : Bool) (fee : U128) :
    Except Error ReferralShares :=
  if referred then t.shares fee else .ok ⟨.zero, .zero⟩

end ExchangeFees

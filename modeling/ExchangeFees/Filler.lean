import ExchangeFees.Proportion
import ExchangeFees.Trace

/-!
The filler's reward: the lesser of a share of the fee, which caps the reward on large fills, and a
reward that grows with the fourth root of the order's age and so favours filling older orders. The
age is at least one tick, and for one tick the second reward is the schedule's lower bound: the age
is multiplied by 100000000 before the root is taken and the product with the bound divided by 100,
the fourth root of that. A fill before its order has no age.
-/
namespace ExchangeFees

/-- The factor on the age before the root. -/
def ageScale : Int := 100000000

/-- The fourth root of the factor. -/
def ageRootScale : Int := 100

/-- Ticks from an order to its fill, at least one. -/
def age (orderTs now : I64) : Except Error U128 := do
  let ticks ← (← now.sub orderTs.val).cast .u128
  return ticks.max .one

namespace FillerTerms

def sizeReward (t : FillerTerms Term) (fee : U128) : Except Error U128 := t.reward.share fee

def timeReward (t : FillerTerms Term) (orderTs now : I64) : Except Error U128 := do
  let ticks ← age orderTs now
  let root ← (← ticks.mul ageScale).root 4
  let product ← root.mul (← Checked.operand .u128 t.lowerBound.toValue)
  product.div ageRootScale

/-- The reward off a fee: the lesser of the two, traced. -/
def payout (t : FillerTerms Term) (fee : U128) (orderTs now : Value) : Traced U128 := do
  let size ← t.sizeReward fee
  let now ← Checked.of .i64 now
  let orderTs ← Checked.of .i64 orderTs
  let time ← t.timeReward orderTs now
  Traced.log (.filler fee orderTs now size time)
  return size.min time

def payoutIf (t : FillerTerms Term) (wanted : Bool) (fee : U128) (orderTs now : Value) :
    Traced U128 :=
  if wanted then t.payout fee orderTs now else pure .zero

def sizeRewardOf (t : FillerTerms Term) (fee : Value) : Except Error U128 := do
  t.sizeReward (← Checked.of .u128 fee)

def timeRewardOf (t : FillerTerms Term) (orderTs now : Value) : Except Error U128 := do
  let now ← Checked.of .i64 now
  let orderTs ← Checked.of .i64 orderTs
  t.timeReward orderTs now

def payoutOf (t : FillerTerms Term) (fee orderTs now : Value) : Traced U128 := do
  t.payout (← Checked.of .u128 fee) orderTs now

end FillerTerms

def ageOf (orderTs now : Value) : Except Error U128 := do
  let now ← Checked.of .i64 now
  let orderTs ← Checked.of .i64 orderTs
  age orderTs now

end ExchangeFees

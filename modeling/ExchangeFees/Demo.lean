import ExchangeFees.Fill.Amm
import ExchangeFees.Fill.Matched
import ExchangeFees.Fill.Venue
import ExchangeFees.Quote
import ExchangeFees.Schedule.Mapping

/-!
Worked scenarios: the fees of one fill under several schedules and flags, on each of the three
paths. A breakdown is listed field by field; for a fill of the market a last line shows what the fee
was distributed to, so that a surplus stands out as the difference.
-/
namespace ExchangeFees.Demo

structure Scenario where
  title : String
  breakdown : Except Error Record

/-- What is traded in every scenario: a hundred quote units. -/
def notional : Value := .int (100 * quoteUnit)

def ratio (numerator denominator : Nat) : Except Error (Ratio Term) := do
  let n ← Checked.ofInt .u128 numerator
  let d ← Checked.ofInt .u128 denominator
  return ⟨.plain n, .plain d⟩

/-- A fill between two orders, placed at tick zero. -/
def matched (s : Schedule) (now : Int) (rewardFiller rewardReferrer : Bool) :
    Except Error Record := do
  let f : MatchedFill :=
    { quoteAmount := notional, orderTs := .int 0, now := .int now, rewardFiller, rewardReferrer }
  return .fill (← (f.fees s).result)

/-- A fill against the market's own maker, placed at tick zero. -/
def amm (s : Schedule) (now : Int) (rewardFiller rewardReferrer : Bool) (surplus : Int)
    (postOnly : Bool) : Except Error Record := do
  let f : AmmFill :=
    { quoteAmount := notional, orderTs := .int 0, now := .int now, rewardFiller, rewardReferrer,
      surplus := .int surplus, postOnly }
  return .fill (← (f.fees s).result)

/-- A rewarded fill on an outside venue that takes 32000 and pays a rebate of 8000. -/
def venue (s : Schedule) (feePool : Int) : Except Error Record := do
  let f : VenueFill :=
    { quoteAmount := notional, orderTs := .int 0, now := .int 0, rewardFiller := true,
      venueFee := .int 32000, referrerRebate := .int 8000, feePool := .int feePool }
  return .venueFill (← (f.fees s).result)

def scenarios : Except Error (List Scenario) := do
  let standard := Schedule.standard
  let tenth ← ratio 1 10
  let referred : Schedule := { standard with referral := ⟨tenth, tenth⟩ }
  let wholeFee : Schedule :=
    { standard with filler := { standard.filler with reward := ← ratio 1 1 } }
  let fourBasisPoints : Schedule := { standard with fee := ← ratio 4 10000 }
  return [
    ⟨"S1a matched, no filler", matched standard 0 false false⟩,
    ⟨"S1b matched, filler on 60-tick-old order", matched wholeFee 60 true false⟩,
    ⟨"S1c matched, referral 10%/10%", matched referred 0 false true⟩,
    ⟨"S2a AMM, referral 10%/10%, no surplus", amm referred 60 false true 0 false⟩,
    ⟨"S2b AMM, surplus -50000", amm standard 0 false false (-50000) false⟩,
    ⟨"S2c AMM post-only, surplus 30000, filler paid", amm standard 0 true false 30000 true⟩,
    ⟨"S3a serum, filler from excess user fee", venue standard 0⟩,
    ⟨"S3b serum at 4 bps, filler from fee pool of 2000", venue fourBasisPoints 2000⟩]

def row (name text : String) : String :=
  String.ofList
    (' ' :: ' ' :: Text.padRight 22 name.toList ++ ' ' :: Text.padLeft 16 ' ' text.toList)

/-- The line that adds up what the fee of a fill was distributed to. -/
def distribution : Record → Except Error (List String)
  | .fill b => do
    let parts := b.feeToMarket.val + b.fillerReward.val + b.referrerReward.val + b.makerRebate.val
    return [row "(market+filler+referrer+rebate)" (← Quote.text parts)]
  | _ => return []

def shown (raw : Bool) (x : Value) : Except Error String := do
  if raw then return String.ofList (Text.ofInt (← x.toInteger)) else Quote.ofValue x

def Scenario.lines (raw : Bool) (s : Scenario) : Except Error (List String) := do
  let record ← s.breakdown
  let rows ← record.fields.mapM fun e => do return row e.1 (← shown raw e.2)
  return "" :: s!"=== {s.title} ===" :: rows ++ (← distribution record)

def lines (raw : Bool) : Except Error (List String) := do
  let total ← Quote.ofValue notional
  let blocks ← (← scenarios).mapM (Scenario.lines raw)
  return s!"Notional: {total} quote" :: blocks.flatten

end ExchangeFees.Demo

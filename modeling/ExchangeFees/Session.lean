import ExchangeFees.Fill.Amm
import ExchangeFees.Fill.Matched
import ExchangeFees.Fill.Venue
import ExchangeFees.Guard
import ExchangeFees.Schedule.Mapping

/-!
Sessions: a schedule, the fee pool, what the market holds and the mask of paused operations, changed
by one step after the other. A fill passes the guard, has its fees computed and then moves the
balance it feeds: fills of the market the market's, fills on an outside venue the pool's. A step
that fails at any point changes nothing.
-/
namespace ExchangeFees

structure Session where
  schedule : Schedule
  pool : U128
  market : I128
  mask : Value

namespace Session

/-- A step. A fill on an outside venue sees the session's own pool, whatever pool it names. -/
inductive Step where
  | setPaused (mask : Value)
  | replace (changes : Entries)
  | rebuild (mapping : Value)
  | amm (f : AmmFill)
  | matched (f : MatchedFill)
  | venue (f : VenueFill)

inductive Answer where
  | done
  | schedule (s : Schedule)
  | fill (b : FillBreakdown)
  | venueFill (b : VenueBreakdown)

def movePool (pool : U128) (delta : I128) : Except Error U128 := do
  let moved ← (← pool.cast .i128).add delta.val
  moved.cast .u128

def step (s : Session) : Step → Traced (Answer × Session)
  | .setPaused mask => pure (.done, { s with mask })
  | .replace changes => do
    let schedule ← s.schedule.replace changes
    return (.schedule schedule, { s with schedule })
  | .rebuild mapping => do
    let schedule ← FeeSchedule.ofMapping mapping
    return (.schedule schedule, { s with schedule })
  | .amm f => do
    allowFill s.mask true
    let b ← f.fees s.schedule
    let market ← s.market.add b.feeToMarket.val
    return (.fill b, { s with market })
  | .matched f => do
    allowFill s.mask false
    let b ← f.fees s.schedule
    let market ← s.market.add b.feeToMarket.val
    return (.fill b, { s with market })
  | .venue f => do
    allowFill s.mask false
    let b ← VenueFill.fees { f with feePool := s.pool.toValue } s.schedule
    let pool ← movePool s.pool b.feePoolDelta
    return (.venueFill b, { s with pool })

structure Outcome where
  answer : Except Error Answer
  after : Session
  lines : List TraceLine

/-- What comes of a step; a failing one leaves the state as it was. -/
def advance (s : Session) (x : Step) : Outcome :=
  let t := s.step x
  match t.result with
  | .ok (answer, after) => ⟨.ok answer, after, t.lines⟩
  | .error e => ⟨.error e, s, t.lines⟩

def run (s : Session) : List Step → List Outcome
  | [] => []
  | x :: rest => s.advance x :: run (s.advance x).after rest

def final (s : Session) (steps : List Step) : Session :=
  steps.foldl (fun s x => (s.advance x).after) s

def start (schedule : Schedule) (pool market mask : Value) : Except Error Session := do
  let pool ← Checked.of .u128 pool
  let market ← Checked.of .i128 market
  return ⟨schedule, pool, market, mask⟩

end Session
end ExchangeFees

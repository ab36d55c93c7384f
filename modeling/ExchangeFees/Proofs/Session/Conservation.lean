import ExchangeFees.Proofs.Fill.Amm
import ExchangeFees.Proofs.Fill.Matched
import ExchangeFees.Proofs.Fill.Venue
import ExchangeFees.Proofs.Session.Run
import Mathlib.Algebra.Ring.Int.Defs

/-! Conservation of money. What the users of a fill pay is what the breakdown hands out, and
over a run the market and the pool move by exactly what the successful fills gave them. -/
namespace ExchangeFees.Session

/-- The money of a successful step adds up, in the integers that its values stand for. A step
that prices no fill moves none. -/
def Balanced (schedule : Schedule) : Step → Answer → Prop
  | .matched f, .fill b =>
    b.userFee.val =
      b.feeToMarket.val + b.fillerReward.val + b.referrerReward.val + b.makerRebate.val ∧
    schedule.Grosses f.quoteAmount (b.userFee.val + b.refereeDiscount.val)
  | .amm f, .fill b =>
    (∃ surplus, f.surplus.toInteger = .ok surplus ∧ b.userFee.val + surplus =
      b.feeToMarket.val + b.fillerReward.val + b.referrerReward.val + b.makerRebate.val) ∧
    (f.postOnly = false → schedule.Grosses f.quoteAmount (b.userFee.val + b.refereeDiscount.val))
  | .venue f, .venueFill b =>
    ∃ venueFee rebate, f.venueFee.toInteger = .ok venueFee ∧
      f.referrerRebate.toInteger = .ok rebate ∧
      b.userFee.val = b.feeToMarket.val + venueFee + b.fillerReward.val ∧
      b.feePoolDelta.val = b.userFee.val - venueFee - rebate - b.fillerReward.val
  | .setPaused _, .done => True
  | .replace _, .schedule _ => True
  | .rebuild _, .schedule _ => True
  | _, _ => False

/-- What an answer gives to the market: the part of a successful fill of its own. -/
def toMarket : Except Error Answer → Int
  | .ok (.fill b) => b.feeToMarket.val
  | _ => 0

/-- What an answer gives to the pool: the change by a successful fill on an outside venue. -/
def toPool : Except Error Answer → Int
  | .ok (.venueFill b) => b.feePoolDelta.val
  | _ => 0

variable {s after : Session} {x : Step} {answer : Except Error Answer} {schedule : Schedule}
  {b : FillBreakdown}

theorem matched_balanced {f : MatchedFill} (fees : (f.fees schedule).result = .ok b) :
    Balanced schedule (.matched f) (.fill b) := by
  obtain ⟨fee, d⟩ := MatchedFill.fees_eq_ok.mp fees
  have userFee := d.userFee
  have toMarket := d.toMarket
  have gross := FeeSchedule.grosses_of_grossFee d.gross
  have paid : fee.val = b.userFee.val + b.refereeDiscount.val := by omega
  exact ⟨by omega, paid ▸ gross⟩

theorem amm_balanced {f : AmmFill} (fees : (f.fees schedule).result = .ok b) :
    Balanced schedule (.amm f) (.fill b) := by
  obtain ⟨surplus, fee, read, ⟨postOnly, d⟩ | ⟨taker, d⟩⟩ := AmmFill.fees_eq_ok.mp fees
  · have sum := d.surplus
    have toMarket := d.toMarket
    have userFee := congrArg Checked.val d.userFee
    have makerRebate := congrArg Checked.val d.makerRebate
    have referrerReward := congrArg Checked.val d.referrerReward
    simp only [Checked.val_zero] at userFee makerRebate referrerReward
    refine ⟨⟨surplus.val, Checked.toInteger_of read, by omega⟩, fun taker => ?_⟩
    rw [postOnly] at taker
    cases taker
  · have userFee := d.userFee
    have forLp := d.forLp
    have toMarket := d.toMarket
    have makerRebate := congrArg Checked.val d.makerRebate
    simp only [Checked.val_zero] at makerRebate
    have gross := FeeSchedule.grosses_of_grossFee d.gross
    have paid : fee.val = b.userFee.val + b.refereeDiscount.val := by omega
    exact ⟨⟨surplus.val, Checked.toInteger_of read, by omega⟩, fun _ => paid ▸ gross⟩

theorem venue_balanced {f : VenueFill} {b : VenueBreakdown} {pool : U128}
    (fees : ((f.withPool pool).fees schedule).result = .ok b) :
    Balanced schedule (.venue f) (.venueFill b) := by
  obtain ⟨fee, venueFee, rebate, _, d⟩ := VenueFill.fees_eq_ok.mp fees
  have toMarket := d.toMarket
  have delta := d.delta
  exact ⟨venueFee.val, rebate.val, Checked.toInteger_of d.readVenueFee,
    Checked.toInteger_of d.readRebate, by omega, by omega⟩

/-- Every effect of a step is balanced. -/
theorem Effect.balanced {answer : Answer} (effect : Effect s x (.ok answer) after) :
    Balanced s.schedule x answer := by
  cases effect with
  | paused | replaced | rebuilt => trivial
  | amm _ fees => exact amm_balanced fees
  | matched _ fees => exact matched_balanced fees
  | venue _ fees => exact venue_balanced fees

theorem Effect.market (effect : Effect s x answer after) :
    after.market.val = s.market.val + toMarket answer := by
  cases effect with
  | amm _ _ moved | matched _ _ moved => exact moved
  | failed | paused | replaced | rebuilt | venue => exact (Int.add_zero _).symm

theorem Effect.pool (effect : Effect s x answer after) :
    after.pool.val = s.pool.val + toPool answer := by
  cases effect with
  | venue _ _ moved => exact (movePool_eq_ok.mp moved).2.2
  | failed | paused | replaced | rebuilt | amm | matched => exact (Int.add_zero _).symm

theorem run_balanced (s : Session) (steps : List Step) :
    ∀ v ∈ s.visits steps, ∀ answer, (v.1.advance v.2).answer = .ok answer →
      Balanced v.1.schedule v.2 answer := by
  intro v _ answer succeeded
  exact (succeeded ▸ effect_advance v.1 v.2).balanced

/-- A balance that each step moves by what its answer gives is moved by a run by the sum. -/
theorem final_sum (balance : Session → Int) {given : Except Error Answer → Int}
    (moves : ∀ s x, balance (s.advance x).after = balance s + given (s.advance x).answer)
    (s : Session) (steps : List Step) :
    balance (s.final steps) = balance s + ((s.run steps).map fun o => given o.answer).sum := by
  induction steps generalizing s with
  | nil => exact (Int.add_zero _).symm
  | cons x rest ih => rw [final_cons, ih, run, List.map_cons, List.sum_cons, moves, Int.add_assoc]

/-- A balance that each step keeps up to its least change is kept by a run up to their sum. -/
theorem final_ge_sum (balance : Session → Int) {least : Session → Step → Int}
    (moves : ∀ s x, balance s + least s x ≤ balance (s.advance x).after) (s : Session)
    (steps : List Step) :
    balance s + ((s.visits steps).map fun v => least v.1 v.2).sum ≤ balance (s.final steps) := by
  induction steps generalizing s with
  | nil => exact Int.le_of_eq (Int.add_zero _)
  | cons x rest ih =>
    have first := moves s x
    have after := ih (s.advance x).after
    rw [visits, List.map_cons, List.sum_cons, final_cons]
    dsimp only
    omega

theorem run_market (s : Session) (steps : List Step) :
    (s.final steps).market.val =
      s.market.val + ((s.run steps).map fun o => toMarket o.answer).sum :=
  final_sum (fun s => s.market.val) (fun s x => (effect_advance s x).market) s steps

theorem run_pool (s : Session) (steps : List Step) :
    (s.final steps).pool.val =
      s.pool.val + ((s.run steps).map fun o => toPool o.answer).sum :=
  final_sum (fun s => s.pool.val) (fun s x => (effect_advance s x).pool) s steps

/-- In every run the money of each successful step adds up, and the market and the pool end at
what they held and the sum of what exactly the successful fills gave them. -/
theorem run_conserves_money (s : Session) (steps : List Step) :
    ((s.visits steps).map Prod.snd = steps ∧
      s.run steps = (s.visits steps).map fun v => v.1.advance v.2) ∧
    (∀ v ∈ s.visits steps, ∀ answer, (v.1.advance v.2).answer = .ok answer →
      Balanced v.1.schedule v.2 answer) ∧
    (s.final steps).market.val =
      s.market.val + ((s.run steps).map fun o => toMarket o.answer).sum ∧
    (s.final steps).pool.val =
      s.pool.val + ((s.run steps).map fun o => toPool o.answer).sum :=
  ⟨⟨visits_steps s steps, run_eq_visits s steps⟩, run_balanced s steps, run_market s steps,
    run_pool s steps⟩

end ExchangeFees.Session

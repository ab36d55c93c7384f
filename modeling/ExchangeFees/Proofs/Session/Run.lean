import ExchangeFees.Proofs.Checked.Results
import ExchangeFees.Session

/-! Steps and runs of sessions. A step either fails and leaves the session alone or has the one
effect of its kind; a run is the steps in order, each on the session that the ones before it
left. -/
namespace ExchangeFees

/-- A fill on an outside venue with the fee pool as it stands. -/
def VenueFill.withPool (f : VenueFill) (pool : U128) : VenueFill :=
  { f with feePool := pool.toValue }

namespace Session

/-- The effects that a step can have on a session, by the answer that it gives. -/
inductive Effect (s : Session) : Step → Except Error Answer → Session → Prop where
  | failed (x : Step) (e : Error) : Effect s x (.error e) s
  | paused (mask : Value) : Effect s (.setPaused mask) (.ok .done) { s with mask }
  | replaced {changes schedule} (built : FeeSchedule.replace s.schedule changes = .ok schedule) :
      Effect s (.replace changes) (.ok (.schedule schedule)) { s with schedule }
  | rebuilt {mapping schedule} (built : FeeSchedule.ofMapping mapping = .ok schedule) :
      Effect s (.rebuild mapping) (.ok (.schedule schedule)) { s with schedule }
  | amm {f b market} (allowed : allowFill s.mask true = .ok ())
      (fees : (AmmFill.fees f s.schedule).result = .ok b)
      (moved : market.val = s.market.val + b.feeToMarket.val) :
      Effect s (.amm f) (.ok (.fill b)) { s with market }
  | matched {f b market} (allowed : allowFill s.mask false = .ok ())
      (fees : (MatchedFill.fees f s.schedule).result = .ok b)
      (moved : market.val = s.market.val + b.feeToMarket.val) :
      Effect s (.matched f) (.ok (.fill b)) { s with market }
  | venue {f b pool} (allowed : allowFill s.mask false = .ok ())
      (fees : ((f.withPool s.pool).fees s.schedule).result = .ok b)
      (moved : movePool s.pool b.feePoolDelta = .ok pool) :
      Effect s (.venue f) (.ok (.venueFill b)) { s with pool }

theorem effect_of_step {s after : Session} {x : Step} {answer : Answer}
    (stepped : (s.step x).result = .ok (answer, after)) : Effect s x (.ok answer) after := by
  cases x with
  | setPaused mask =>
    cases stepped
    exact .paused mask
  | replace changes =>
    simp only [step, Traced.result_bind, Traced.result_liftM, Traced.result_pure, bind_eq_ok,
      Except.ok.injEq, Prod.mk.injEq] at stepped
    obtain ⟨schedule, built, rfl, rfl⟩ := stepped
    exact .replaced built
  | rebuild mapping =>
    simp only [step, Traced.result_bind, Traced.result_liftM, Traced.result_pure, bind_eq_ok,
      Except.ok.injEq, Prod.mk.injEq] at stepped
    obtain ⟨schedule, built, rfl, rfl⟩ := stepped
    exact .rebuilt built
  | amm f =>
    simp only [step, Traced.result_bind, Traced.result_liftM, Traced.result_pure, bind_eq_ok,
      Checked.add_eq_ok, Except.ok.injEq, Prod.mk.injEq] at stepped
    obtain ⟨_, allowed, b, fees, market, moved, rfl, rfl⟩ := stepped
    exact .amm allowed fees moved
  | matched f =>
    simp only [step, Traced.result_bind, Traced.result_liftM, Traced.result_pure, bind_eq_ok,
      Checked.add_eq_ok, Except.ok.injEq, Prod.mk.injEq] at stepped
    obtain ⟨_, allowed, b, fees, market, moved, rfl, rfl⟩ := stepped
    exact .matched allowed fees moved
  | venue f =>
    simp only [step, Traced.result_bind, Traced.result_liftM, Traced.result_pure, bind_eq_ok,
      Except.ok.injEq, Prod.mk.injEq] at stepped
    obtain ⟨_, allowed, b, fees, pool, moved, rfl, rfl⟩ := stepped
    exact .venue allowed fees moved

/-- What comes of a step is one of its effects. -/
theorem effect_advance (s : Session) (x : Step) :
    Effect s x (s.advance x).answer (s.advance x).after := by
  cases stepped : (s.step x).result with
  | error e =>
    simp only [advance, stepped]
    exact .failed x e
  | ok outcome =>
    simp only [advance, stepped]
    exact effect_of_step stepped

/-- A pool moves to the sum if both it and the sum fit the signed width. -/
theorem movePool_eq_ok {pool moved : U128} {delta : I128} :
    movePool pool delta = .ok moved ↔
      pool.val ≤ Width.i128.hi ∧ moved.val ≤ Width.i128.hi ∧ moved.val = pool.val + delta.val := by
  simp only [movePool, bind_eq_ok, Checked.cast_eq_ok, Checked.add_eq_ok]
  constructor
  · rintro ⟨signed, signedVal, sum, sumVal, movedVal⟩
    have fits := signed.le_hi
    have sumFits := sum.le_hi
    exact ⟨by omega, by omega, by omega⟩
  · rintro ⟨fits, sumFits, value⟩
    obtain ⟨signed, signedVal⟩ := Checked.exists_val.mpr ((Width.i128_holds pool.nonneg).mpr fits)
    obtain ⟨sum, sumVal⟩ := Checked.exists_val.mpr ((Width.i128_holds moved.nonneg).mpr sumFits)
    exact ⟨signed, signedVal, sum, by omega, sumVal.symm⟩

theorem movePool_failsOnly {faults : Error → Prop}
    (arithmetic : ∀ fault, faults (.arithmetic fault)) (pool : U128) (delta : I128) :
    FailsOnly faults (movePool pool delta) := by
  refine (Checked.cast_failsOnly arithmetic _ _).bind fun signed => ?_
  refine (Checked.ofResult_failsOnly arithmetic _ _).bind fun moved => ?_
  exact Checked.cast_failsOnly arithmetic _ _

section Succeeding

variable {s after : Session} {x : Step} {answer : Answer}

/-- An effect by which a step succeeds is what comes of the step. -/
theorem step_of_effect (effect : Effect s x (.ok answer) after) :
    (s.step x).result = .ok (answer, after) := by
  cases effect with
  | paused => rfl
  | replaced built =>
    simp only [step, Traced.result_bind, Traced.result_liftM, bind_eq_ok]
    exact ⟨_, built, rfl⟩
  | rebuilt built =>
    simp only [step, Traced.result_bind, Traced.result_liftM, bind_eq_ok]
    exact ⟨_, built, rfl⟩
  | amm allowed fees moved =>
    simp only [step, Traced.result_bind, Traced.result_liftM, bind_eq_ok]
    exact ⟨(), allowed, _, fees, _, Checked.add_eq_ok.mpr moved, rfl⟩
  | matched allowed fees moved =>
    simp only [step, Traced.result_bind, Traced.result_liftM, bind_eq_ok]
    exact ⟨(), allowed, _, fees, _, Checked.add_eq_ok.mpr moved, rfl⟩
  | venue allowed fees moved =>
    simp only [step, Traced.result_bind, Traced.result_liftM, bind_eq_ok]
    exact ⟨(), allowed, _, fees, _, moved, rfl⟩

theorem advance_of_effect (effect : Effect s x (.ok answer) after) :
    (s.advance x).answer = .ok answer ∧ (s.advance x).after = after := by
  simp only [advance, step_of_effect effect, and_self]

/-- A fill of the market that passes the guard, has fees and leaves the market within its width
succeeds, and the market moves by its part of the fees. -/
theorem advance_amm {f : AmmFill} {b : FillBreakdown} (allowed : allowFill s.mask true = .ok ())
    (fees : (f.fees s.schedule).result = .ok b)
    (fits : Width.i128.Holds (s.market.val + b.feeToMarket.val)) :
    ∃ market : I128, market.val = s.market.val + b.feeToMarket.val ∧
      (s.advance (.amm f)).answer = .ok (.fill b) ∧
      (s.advance (.amm f)).after = { s with market } := by
  obtain ⟨market, moved⟩ := Checked.exists_val.mpr fits
  exact ⟨market, moved, advance_of_effect (.amm allowed fees moved)⟩

theorem advance_matched {f : MatchedFill} {b : FillBreakdown}
    (allowed : allowFill s.mask false = .ok ()) (fees : (f.fees s.schedule).result = .ok b)
    (fits : Width.i128.Holds (s.market.val + b.feeToMarket.val)) :
    ∃ market : I128, market.val = s.market.val + b.feeToMarket.val ∧
      (s.advance (.matched f)).answer = .ok (.fill b) ∧
      (s.advance (.matched f)).after = { s with market } := by
  obtain ⟨market, moved⟩ := Checked.exists_val.mpr fits
  exact ⟨market, moved, advance_of_effect (.matched allowed fees moved)⟩

/-- A fill on an outside venue that passes the guard and has fees succeeds if the pool, before and
after, is no more than a signed amount, and covers what is taken from it. -/
theorem advance_venue {f : VenueFill} {b : VenueBreakdown}
    (allowed : allowFill s.mask false = .ok ())
    (fees : ((f.withPool s.pool).fees s.schedule).result = .ok b)
    (signed : s.pool.val ≤ Width.i128.hi) (covered : 0 ≤ s.pool.val + b.feePoolDelta.val)
    (fits : s.pool.val + b.feePoolDelta.val ≤ Width.i128.hi) :
    ∃ pool : U128, pool.val = s.pool.val + b.feePoolDelta.val ∧
      (s.advance (.venue f)).answer = .ok (.venueFill b) ∧
      (s.advance (.venue f)).after = { s with pool } := by
  have held : Width.u128.Holds (s.pool.val + b.feePoolDelta.val) :=
    ⟨covered, Int.le_trans fits Width.i128_hi_le⟩
  obtain ⟨pool, moved⟩ := Checked.exists_val.mpr held
  have moves : movePool s.pool b.feePoolDelta = .ok pool :=
    movePool_eq_ok.mpr ⟨signed, moved ▸ fits, moved⟩
  exact ⟨pool, moved, advance_of_effect (.venue allowed fees moves)⟩

end Succeeding

theorem final_cons (s : Session) (x : Step) (rest : List Step) :
    s.final (x :: rest) = (s.advance x).after.final rest := rfl

/-- What each step keeps, a run keeps. -/
theorem final_induction {motive : Session → Prop}
    (step : ∀ s x, motive s → motive (s.advance x).after) {s : Session} (start : motive s)
    (steps : List Step) : motive (s.final steps) := by
  induction steps generalizing s with
  | nil => exact start
  | cons x rest ih => exact ih (step s x start)

/-- The steps of a run, each with the session that it finds. -/
def visits (s : Session) : List Step → List (Session × Step)
  | [] => []
  | x :: rest => (s, x) :: visits (s.advance x).after rest

theorem visits_steps (s : Session) (steps : List Step) :
    (s.visits steps).map Prod.snd = steps := by
  induction steps generalizing s with
  | nil => rfl
  | cons x rest ih => rw [visits, List.map_cons, ih]

theorem visits_take (s : Session) (steps : List Step) (n : Nat) :
    (s.visits steps).take n = s.visits (steps.take n) := by
  induction steps generalizing s n with
  | nil => simp [visits]
  | cons x rest ih =>
    cases n with
    | zero => rfl
    | succ n => simp only [visits, List.take_succ_cons, ih]

theorem run_eq_visits (s : Session) (steps : List Step) :
    s.run steps = (s.visits steps).map fun v => v.1.advance v.2 := by
  induction steps generalizing s with
  | nil => rfl
  | cons x rest ih => rw [run, visits, List.map_cons, ih]

/-- The steps of a run, each with the answer to it. -/
def replies (s : Session) (steps : List Step) : List (Step × Except Error Answer) :=
  steps.zip ((s.run steps).map Outcome.answer)

theorem replies_cons (s : Session) (x : Step) (rest : List Step) :
    s.replies (x :: rest) = (x, (s.advance x).answer) :: (s.advance x).after.replies rest := rfl

end Session
end ExchangeFees

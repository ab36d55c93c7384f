import ExchangeFees.Proofs.Fill.Venue
import ExchangeFees.Proofs.Session.Frame
import Mathlib.Data.List.Forall2

/-! Two runs of the same steps that start with pools of different size. The pool is read by the
filler's reward on a venue alone, which a larger pool raises by no more than it is larger. As long
as every step ends alike in both runs, the larger pool therefore stays the larger one and the gap
never grows. -/
namespace ExchangeFees

namespace VenueFill

variable {f : VenueFill} {s : Schedule} {pool larger : U128} {b c : VenueBreakdown}

/-- How the breakdowns of a fill with two pools differ: the user pays the same, and what the larger
pool pays the filler on top is less for the pool itself. -/
structure Raises (pool larger : U128) (b c : VenueBreakdown) : Prop where
  userFee : b.userFee = c.userFee
  reward_le : b.fillerReward.val ≤ c.fillerReward.val
  reward_near : c.fillerReward.val - b.fillerReward.val ≤ larger.val - pool.val
  delta : b.feePoolDelta.val + b.fillerReward.val = c.feePoolDelta.val + c.fillerReward.val

/-- The reward is the lesser of what the terms give and the greater of excess and pool, which grows
with the pool and no faster than it. -/
theorem raises (fees : ((f.withPool pool).fees s).result = .ok b)
    (fees' : ((f.withPool larger).fees s).result = .ok c) (le : pool.val ≤ larger.val) :
    Raises pool larger b c := by
  obtain ⟨fee, venueFee, rebate, p, d⟩ := fees_eq_ok.mp fees
  obtain ⟨fee', venueFee', rebate', q, e⟩ := fees_eq_ok.mp fees'
  obtain rfl : fee = fee' := Except.ok.inj (d.gross.symm.trans e.gross)
  obtain rfl : venueFee = venueFee' := Except.ok.inj (d.readVenueFee.symm.trans e.readVenueFee)
  obtain rfl : rebate = rebate' := Except.ok.inj (d.readRebate.symm.trans e.readRebate)
  obtain rfl : pool = p := Except.ok.inj ((Checked.of_toValue pool).symm.trans d.readPool)
  obtain rfl : larger = q := Except.ok.inj ((Checked.of_toValue larger).symm.trans e.readPool)
  have userFee : b.userFee = c.userFee := Checked.ext (d.userFee.trans e.userFee.symm)
  have paid : b.fillerReward.val ≤ c.fillerReward.val ∧
      c.fillerReward.val - b.fillerReward.val ≤ larger.val - pool.val := by
    have filler := d.filler
    have filler' := e.filler
    rw [← userFee] at filler'
    simp only [FillerTerms.PaysWithin, withPool] at filler filler'
    cases wanted : f.rewardFiller with
    | false =>
      simp only [wanted, Bool.false_eq_true, if_false] at filler filler'
      omega
    | true =>
      simp only [wanted, if_true] at filler filler'
      obtain ⟨reward, payout, value⟩ := filler
      obtain ⟨reward', payout', value'⟩ := filler'
      -- The terms give the same reward with either pool; only the cap on it is another.
      obtain rfl : reward = reward' := Except.ok.inj (payout.symm.trans payout')
      omega
  have toMarket := d.toMarket
  have toMarket' := e.toMarket
  have delta := d.delta
  have delta' := e.delta
  rw [← userFee] at toMarket'
  exact ⟨userFee, paid.1, paid.2, by omega⟩

end VenueFill

namespace Session

/-- A session and one that has a larger pool, by a gap at most, and is equal in all else. -/
structure DominatedBy (s t : Session) (gap : Int) : Prop where
  same : t = s.withPool t.pool
  pool_le : s.pool.val ≤ t.pool.val
  pool_near : t.pool.val - s.pool.val ≤ gap

/-- Answers to a step on a pool and on a larger one. On a venue both succeed, with the same fee for
the user and no less for the filler, or both fail; any other step is answered alike. -/
def Step.DominatedReply : Step → Except Error Answer → Except Error Answer → Prop
  | .venue _, .ok (.venueFill b), .ok (.venueFill c) =>
    b.userFee = c.userFee ∧ b.fillerReward.val ≤ c.fillerReward.val
  | .venue _, .error _, .error _ => True
  | .venue _, _, _ => False
  | _, answer, answer' => answer = answer'

variable {s t : Session} {x : Step} {gap : Int}

theorem DominatedBy.advance_inside (d : s.DominatedBy t gap) (inside : x.onVenue = false) :
    (s.advance x).after.DominatedBy (t.advance x).after gap ∧
      (s.advance x).answer = (t.advance x).answer := by
  have stepped := advance_withPool (s := s) inside t.pool
  rw [← d.same] at stepped
  have samePool := (effect_advance s x).same_pool inside
  rw [stepped]
  exact ⟨⟨rfl, samePool ▸ d.pool_le, samePool ▸ d.pool_near⟩, rfl⟩

theorem DominatedBy.advance_venue {f : VenueFill} (d : s.DominatedBy t gap)
    (together : (s.advance (.venue f)).answer.isOk = (t.advance (.venue f)).answer.isOk) :
    (s.advance (.venue f)).after.DominatedBy (t.advance (.venue f)).after gap ∧
      Step.DominatedReply (.venue f) (s.advance (.venue f)).answer
        (t.advance (.venue f)).answer := by
  have effect := effect_advance s (.venue f)
  have effect' := effect_advance t (.venue f)
  generalize (s.advance (.venue f)).answer = answer, (s.advance (.venue f)).after = after
    at effect together ⊢
  generalize (t.advance (.venue f)).answer = answer', (t.advance (.venue f)).after = after'
    at effect' together ⊢
  cases effect with
  | failed x e =>
    cases effect' with
    | failed x e' => exact ⟨d, trivial⟩
    | venue => cases together
  | venue allowed fees moved =>
    cases effect' with
    | failed x e => cases together
    | venue allowed' fees' moved' =>
      have sameSchedule : t.schedule = s.schedule := by
        rw [d.same]
        rfl
      rw [sameSchedule] at fees'
      obtain ⟨userFee, reward_le, reward_near, delta⟩ := VenueFill.raises fees fees' d.pool_le
      have before := d.pool_near
      obtain ⟨-, -, value⟩ := movePool_eq_ok.mp moved
      obtain ⟨-, -, value'⟩ := movePool_eq_ok.mp moved'
      refine ⟨⟨?_, ?_, ?_⟩, userFee, reward_le⟩
      · rw [d.same]
        rfl
      · dsimp only
        omega
      · dsimp only
        omega

/-- A step that ends alike on both pools keeps the larger one ahead by no more than before. -/
theorem DominatedBy.advance (d : s.DominatedBy t gap)
    (together : (s.advance x).answer.isOk = (t.advance x).answer.isOk) :
    (s.advance x).after.DominatedBy (t.advance x).after gap ∧
      x.DominatedReply (s.advance x).answer (t.advance x).answer := by
  cases x with
  | venue f => exact d.advance_venue together
  | setPaused | replace | rebuild | amm | matched => exact d.advance_inside rfl

theorem DominatedBy.run (d : s.DominatedBy t gap) {steps : List Step}
    (together : (s.run steps).map (·.answer.isOk) = (t.run steps).map (·.answer.isOk)) :
    (∀ n, (s.final (steps.take n)).DominatedBy (t.final (steps.take n)) gap) ∧
      List.Forall₂ (fun v w => v.1.DominatedReply v.2 w.2) (s.replies steps)
        (t.replies steps) := by
  induction steps generalizing s t with
  | nil =>
    refine ⟨fun n => ?_, .nil⟩
    rwa [List.take_nil]
  | cons x rest ih =>
    obtain ⟨first, others⟩ := List.cons.inj together
    obtain ⟨next, reply⟩ := d.advance first
    obtain ⟨states, replies⟩ := ih next others
    refine ⟨fun n => ?_, .cons reply replies⟩
    cases n with
    | zero => exact d
    | succ n => exact states n

/-- If each step succeeds with both of two pools or fails with both, then at every point of the run
the larger pool is still the larger one, by no more than at the start, and all else is the same.
The replies agree but for fills on a venue, which charge the user the same and pay the filler no
less from the larger pool. -/
theorem larger_pool_dominates (s : Session) (steps : List Step) {larger : U128}
    (le : s.pool.val ≤ larger.val)
    (together : (s.run steps).map (·.answer.isOk) =
      ((s.withPool larger).run steps).map (·.answer.isOk)) :
    (∀ n, (s.final (steps.take n)).DominatedBy ((s.withPool larger).final (steps.take n))
      (larger.val - s.pool.val)) ∧
    List.Forall₂ (fun v w => v.1.DominatedReply v.2 w.2) (s.replies steps)
      ((s.withPool larger).replies steps) :=
  DominatedBy.run ⟨rfl, le, Int.le_refl _⟩ together

/-- Two fills draw on pools of 2000 and of 5000, each followed by one that fails with both. The
first empties the smaller pool and leaves 1000 in the larger, the second empties that. -/
theorem two_and_five_thousand :
    let draw := VenueTrade.fill ⟨40000000, 0, 0, true, 32000, 8000, 0⟩
    let refused := VenueTrade.fill ⟨-1, 0, 0, true, 32000, 8000, 0⟩
    let steps := [Step.venue draw, .venue refused, .venue draw, .venue refused]
    let s : Session := ⟨.standard, ⟨2000, by decide, by decide⟩, .zero, .int 0⟩
    let larger : U128 := ⟨5000, by decide, by decide⟩
    s.pool.val ≤ larger.val ∧
      (s.run steps).map (fun o => (o.answer.isOk, o.after.pool.val)) =
        [(true, 0), (false, 0), (true, 0), (false, 0)] ∧
      ((s.withPool larger).run steps).map (fun o => (o.answer.isOk, o.after.pool.val)) =
        [(true, 1000), (false, 1000), (true, 0), (false, 0)] ∧
      (s.run steps).map (·.answer.isOk) = ((s.withPool larger).run steps).map (·.answer.isOk) ∧
      (s.final steps).DominatedBy ((s.withPool larger).final steps) 3000 ∧
      List.Forall₂ (fun v w => v.1.DominatedReply v.2 w.2) (s.replies steps)
        ((s.withPool larger).replies steps) := by
  intro draw refused steps s larger
  have le : s.pool.val ≤ larger.val := by decide
  have together : (s.run steps).map (·.answer.isOk) =
      ((s.withPool larger).run steps).map (·.answer.isOk) := by decide +kernel
  obtain ⟨states, replies⟩ := larger_pool_dominates s steps le together
  exact ⟨le, by decide +kernel, by decide +kernel, together, states 4, replies⟩

end Session
end ExchangeFees

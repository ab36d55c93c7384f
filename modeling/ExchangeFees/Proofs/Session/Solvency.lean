import ExchangeFees.Proofs.Fill.Venue
import ExchangeFees.Proofs.Session.Run

/-! Solvency of the fee pool. The user's fee covers what the venue took, so only the filler's
reward can draw on the pool, and it draws no more than the pool, the venue's rebate and the
reward itself. The pool therefore never goes negative, and it stays within the signed width. -/
namespace ExchangeFees

namespace VenueFill

variable {f : VenueFill} {s : Schedule} {fee venueFee rebate pool : U128} {b : VenueBreakdown}

/-- The reward is covered by what the fill left above the venue's take or by the pool. -/
theorem Distributes.reward_le (d : f.Distributes s fee venueFee rebate pool b) :
    b.fillerReward.val ≤ max (b.userFee.val - venueFee.val - rebate.val) pool.val := by
  have filler := d.filler
  have nonneg := pool.nonneg
  unfold FillerTerms.PaysWithin at filler
  split at filler
  · obtain ⟨reward, _, value⟩ := filler
    omega
  · omega

theorem Distributes.delta_ge (d : f.Distributes s fee venueFee rebate pool b) :
    -(min (min pool.val rebate.val) b.fillerReward.val) ≤ b.feePoolDelta.val := by
  have covered := d.reward_le
  have userFee := d.userFee
  have toMarket := d.toMarket
  have delta := d.delta
  have nonneg := b.feeToMarket.nonneg
  have paid := b.fillerReward.nonneg
  have poolNonneg := pool.nonneg
  have rebateNonneg := rebate.nonneg
  -- The excess of the user's fee over the venue's take is not negative, and the change is what
  -- the reward leaves of it.
  have excess : 0 ≤ b.userFee.val - venueFee.val - rebate.val := by omega
  have change : b.feePoolDelta.val =
      b.userFee.val - venueFee.val - rebate.val - b.fillerReward.val := by omega
  omega

theorem Distributes.delta_nonneg (d : f.Distributes s fee venueFee rebate pool b)
    (unpaid : f.rewardFiller = false) : 0 ≤ b.feePoolDelta.val := by
  have filler := d.filler
  have userFee := d.userFee
  have toMarket := d.toMarket
  have delta := d.delta
  simp only [FillerTerms.PaysWithin, unpaid, Bool.false_eq_true, if_false] at filler
  omega

end VenueFill

namespace Session

/-- A pool that its change does not overdraw fails to move only by exceeding the signed width. -/
theorem movePool_eq_error {pool : U128} {delta : I128} {e : Error}
    (covered : 0 ≤ pool.val + delta.val) :
    movePool pool delta = .error e ↔
      Width.i128.hi < pool.val ∧ e = .arithmetic (.lossyCast pool.val .i128) ∨
      pool.val ≤ Width.i128.hi ∧ Width.i128.hi < pool.val + delta.val ∧
        e = .arithmetic (.overflow .i128 (pool.val + delta.val)) := by
  have poolHolds := Width.i128_holds pool.nonneg
  have sumHolds := Width.i128_holds covered
  simp only [movePool, bind_eq_error, Checked.cast_eq_error, Checked.add_eq_error,
    Checked.cast_eq_ok, Checked.add_eq_ok]
  constructor
  · rintro (⟨outside, rfl⟩ | ⟨signed, signedVal, ⟨outside, rfl⟩ | ⟨sum, sumVal, outside, _⟩⟩)
    · rw [poolHolds, Int.not_le] at outside
      exact .inl ⟨outside, rfl⟩
    · have fits := signed.le_hi
      rw [signedVal] at outside fits ⊢
      rw [sumHolds, Int.not_le] at outside
      exact .inr ⟨fits, outside, rfl⟩
    · have bound := sum.le_hi
      have wider := Width.i128_hi_le
      rw [sumVal, signedVal] at outside bound
      exact absurd ⟨covered, by omega⟩ outside
  · rintro (⟨exceeds, rfl⟩ | ⟨fits, exceeds, rfl⟩)
    · exact .inl ⟨by rwa [poolHolds, Int.not_le], rfl⟩
    · obtain ⟨signed, signedVal⟩ := Checked.exists_val.mpr (poolHolds.mpr fits)
      refine .inr ⟨signed, signedVal, .inl ⟨?_, by rw [signedVal]⟩⟩
      rwa [signedVal, sumHolds, Int.not_le]

/-- A pool within the signed width. -/
def PoolFits (s : Session) : Prop := s.pool.val ≤ Width.i128.hi

theorem advance_poolFits (s : Session) (x : Step) (fits : s.PoolFits) :
    (s.advance x).after.PoolFits := by
  have effect := effect_advance s x
  generalize (s.advance x).answer = answer at effect
  generalize (s.advance x).after = after at effect
  cases effect with
  | venue _ _ moved => exact (movePool_eq_ok.mp moved).2.1
  | failed | paused | replaced | rebuilt | amm | matched => exact fits

/-- At every reachable pool a fill on an outside venue changes the pool by no less than what
the pool, the rebate and the reward allow, and not below zero without a reward; the change never
overdraws the pool, so moving it fails only by the signed width, and a pool that starts within
that width stays in it. -/
theorem pool_stays_solvent (s : Session) (steps : List Step) :
    (∀ (f : VenueFill) (b : VenueBreakdown),
      ((f.withPool (s.final steps).pool).fees (s.final steps).schedule).result = .ok b →
        (∃ rebate, f.referrerRebate.toInteger = .ok rebate ∧
          -(min (min (s.final steps).pool.val rebate) b.fillerReward.val) ≤ b.feePoolDelta.val) ∧
        (f.rewardFiller = false → 0 ≤ b.feePoolDelta.val) ∧
        0 ≤ (s.final steps).pool.val + b.feePoolDelta.val ∧
        ∀ e, movePool (s.final steps).pool b.feePoolDelta = .error e ↔
          Width.i128.hi < (s.final steps).pool.val ∧
            e = .arithmetic (.lossyCast (s.final steps).pool.val .i128) ∨
          (s.final steps).pool.val ≤ Width.i128.hi ∧
            Width.i128.hi < (s.final steps).pool.val + b.feePoolDelta.val ∧
            e = .arithmetic
              (.overflow .i128 ((s.final steps).pool.val + b.feePoolDelta.val))) ∧
    (s.pool.val ≤ Width.i128.hi →
      0 ≤ (s.final steps).pool.val ∧ (s.final steps).pool.val ≤ Width.i128.hi) := by
  constructor
  · intro f b fees
    obtain ⟨fee, venueFee, rebate, pool, d⟩ := VenueFill.fees_eq_ok.mp fees
    have same : Except.ok (s.final steps).pool = .ok pool :=
      (Checked.of_toValue _).symm.trans d.readPool
    obtain rfl := Except.ok.inj same
    have lower := d.delta_ge
    have nonneg := (s.final steps).pool.nonneg
    have covered : 0 ≤ (s.final steps).pool.val + b.feePoolDelta.val := by omega
    exact ⟨⟨rebate.val, Checked.toInteger_of d.readRebate, lower⟩, d.delta_nonneg, covered,
      fun e => movePool_eq_error covered⟩
  · intro fits
    exact ⟨(s.final steps).pool.nonneg,
      final_induction (motive := PoolFits) advance_poolFits fits steps⟩

/-- A fill that leaves nothing above the venue's take draws the whole pool, which then holds nothing
for the next. -/
theorem whole_pool_drawn :
    let draw := VenueTrade.fill ⟨40000000, 0, 0, true, 32000, 8000, 0⟩
    let s : Session := ⟨.standard, ⟨2000, by decide, by decide⟩, .zero, .int 0⟩
    ∃ b, ((draw.withPool s.pool).fees s.schedule).result = .ok b ∧ b.feePoolDelta.val = -2000 ∧
      -(min 2000 b.fillerReward.val) ≤ b.feePoolDelta.val ∧ 0 ≤ 2000 + b.feePoolDelta.val ∧
      (s.final [.venue draw]).pool.val = 0 ∧
      (s.final [.venue draw]).pool.val ≤ Width.i128.hi := by
  intro draw s
  obtain ⟨b, fees, delta⟩ : ∃ b, ((draw.withPool s.pool).fees s.schedule).result = .ok b ∧
      b.feePoolDelta.val = -2000 :=
    ⟨_, by with_unfolding_all rfl, by decide +kernel⟩
  obtain ⟨⟨rebate, read, least⟩, _, covered, _⟩ := (pool_stays_solvent s []).1 draw b fees
  obtain rfl : 8000 = rebate := Except.ok.inj read
  have kept := (pool_stays_solvent s [.venue draw]).2 (by decide)
  exact ⟨b, fees, delta, least, covered, by decide +kernel, kept.2⟩

end Session
end ExchangeFees

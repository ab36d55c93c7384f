import ExchangeFees.Proofs.Reward.Curve
import ExchangeFees.Proofs.Share.Growth

/-! How the filler's reward moves with the fee and the age. A lesser fee and a younger order pass
every guard that a greater fee and an older order pass, and earn no more; the timestamps enter by
their difference alone, failures included. The reward by age is never below the lower bound, and is
the bound itself for the first tick and before. -/
namespace ExchangeFees

namespace FillerTerms

variable {t : FillerTerms U128} {o₁ n₁ o₂ n₂ : I64} {root root₁ root₂ orderTs now : Int}

theorem byAge_mono (t : FillerTerms U128) (le : root₁ ≤ root₂) : t.byAge root₁ ≤ t.byAge root₂ :=
  Int.ediv_le_ediv (by decide) (Int.mul_le_mul_of_nonneg_right le t.lowerBound.nonneg)

/-- A younger order has a reward by age if an older one has, with a root that is no greater. -/
theorem Times.younger (times : t.Times o₂.val n₂.val root₂) (aged : 0 ≤ n₁.val - o₁.val)
    (younger : n₁.val - o₁.val ≤ n₂.val - o₂.val) :
    ∃ root₁, t.Times o₁.val n₁.val root₁ ∧ root₁ ≤ root₂ := by
  have scaled : max (n₁.val - o₁.val) 1 * ageScale ≤ max (n₂.val - o₂.val) 1 * ageScale :=
    Int.mul_le_mul_of_nonneg_right (by omega) (by decide)
  obtain ⟨root₁, floor⟩ := Root.exists_isFloor (show (1 : Int) ≤ 4 by decide)
    (Int.mul_nonneg (show 0 ≤ max (n₁.val - o₁.val) 1 by omega) (show 0 ≤ ageScale by decide))
  have le : root₁ ≤ root₂ := floor.mono times.floor scaled
  have product := Int.mul_le_mul_of_nonneg_right le t.lowerBound.nonneg
  exact ⟨root₁, ⟨⟨o₁.lo_le, o₁.le_hi⟩, ⟨n₁.lo_le, n₁.le_hi⟩, aged,
    Int.le_trans younger times.age_fits, floor, Int.le_trans product times.product⟩, le⟩

/-- The scaled age is never below the scale, so the root is never below the root of the scale. -/
theorem Times.lowerBound_le (times : t.Times orderTs now root) :
    t.lowerBound.val ≤ t.byAge root := by
  have least : ageRootScale ≤ root := by
    refine (times.floor.le_iff (by decide)).mpr ?_
    calc ageRootScale ^ 4 = 1 * ageScale := by decide
      _ ≤ max (now - orderTs) 1 * ageScale := Int.mul_le_mul_of_nonneg_right (by omega) (by decide)
  calc t.lowerBound.val = t.byAge ageRootScale :=
        (Int.mul_ediv_cancel_left _ (by decide)).symm
    _ ≤ t.byAge root := t.byAge_mono least

theorem timeReward_of_same_age (t : FillerTerms Term)
    (same : n₁.val - o₁.val = n₂.val - o₂.val) : t.timeReward o₁ n₁ = t.timeReward o₂ n₂ := by
  simp only [timeReward, age, Checked.sub, same]

/-- A reward, or the failure in its place, depends on the timestamps by the age alone. -/
theorem payoutOf_of_same_age (t : FillerTerms Term) (fee : Value)
    (same : n₁.val - o₁.val = n₂.val - o₂.val) :
    (t.payoutOf fee (.int o₁.val) (.int n₁.val)).result =
      (t.payoutOf fee (.int o₂.val) (.int n₂.val)).result := by
  simp only [payoutOf, payout, Traced.result_bind, Traced.result_liftM, Traced.result_log,
    Traced.result_pure, Checked.of_val, ok_bind, timeReward_of_same_age t same]

/-- Where a greater fee and a greater age have a reward, a lesser fee and a lesser age have one that
is no greater. Timestamps of the same age have the same reward, or the same failure. The reward by
age is at least the lower bound, and is the bound for an age of zero or one. -/
theorem reward_grows_with_fee_and_age (t : FillerTerms U128) :
    (∀ (fee₁ fee₂ : Int) (o₁ n₁ o₂ n₂ : I64), 0 ≤ fee₁ → fee₁ ≤ fee₂ → 0 ≤ n₁.val - o₁.val →
      n₁.val - o₁.val ≤ n₂.val - o₂.val → ∀ r₂,
      ((t.map .plain).payoutOf (.int fee₂) (.int o₂.val) (.int n₂.val)).result = .ok r₂ →
      ∃ r₁, ((t.map .plain).payoutOf (.int fee₁) (.int o₁.val) (.int n₁.val)).result = .ok r₁ ∧
        r₁.val ≤ r₂.val) ∧
    (∀ (fee : Int) (o₁ n₁ o₂ n₂ : I64), n₁.val - o₁.val = n₂.val - o₂.val →
      ((t.map .plain).payoutOf (.int fee) (.int o₁.val) (.int n₁.val)).result =
        ((t.map .plain).payoutOf (.int fee) (.int o₂.val) (.int n₂.val)).result) ∧
    ∀ (orderTs now : Int) (c : U128),
      (t.map .plain).timeRewardOf (.int orderTs) (.int now) = .ok c →
      t.lowerBound.val ≤ c.val ∧
        (now - orderTs = 0 ∨ now - orderTs = 1 → c.val = t.lowerBound.val) := by
  refine ⟨?grows, fun fee _ _ _ _ same => payoutOf_of_same_age _ _ same, ?bounded⟩
  case grows =>
    intro fee₁ fee₂ o₁ n₁ o₂ n₂ nonneg le aged younger r₂ paid
    obtain ⟨held, takes, root₂, times, value⟩ := payoutOf_plain_eq_ok.mp paid
    obtain ⟨root₁, times₁, root_le⟩ := times.younger aged younger
    have defined :
        t.reward? fee₁ o₁.val n₁.val = some (min (t.reward.floor fee₁) (t.byAge root₁)) :=
      reward?_eq_some_iff.mpr
        ⟨⟨nonneg, Int.le_trans le held.le_hi⟩, takes.mono le, root₁, times₁, rfl⟩
    obtain ⟨r₁, paid₁⟩ := exists_payoutOf_plain.mpr ⟨_, defined⟩
    obtain ⟨_, _, root₁', times₁', value₁⟩ := payoutOf_plain_eq_ok.mp paid₁
    obtain rfl : root₁' = root₁ := times₁'.floor.unique times₁.floor
    have size := t.reward.floor_mono le
    have time := t.byAge_mono root_le
    exact ⟨r₁, paid₁, by omega⟩
  case bounded =>
    intro orderTs now c paid
    obtain ⟨root, times, value⟩ := timeRewardOf_plain_eq_ok.mp paid
    refine ⟨value ▸ times.lowerBound_le, fun first => ?_⟩
    have tick : max (now - orderTs) 1 = 1 ^ 4 := by omega
    rw [value, times.byAge_of_pow (by decide) tick, Int.one_mul]

/-- Of the fees of 10000 and of 40000 the rewards are 1000 and 4000, for orders of the same age
wherever they start, and an order of one tick has the lower bound as its reward by age. -/
theorem reward_of_lesser_fee :
    let t := FillerTerms.standard.map Term.plain
    ∃ r₁ r₂ c : U128, (t.payoutOf (.int 10000) (.int 5) (.int 65)).result = .ok r₁ ∧
      (t.payoutOf (.int 40000) (.int 0) (.int 60)).result = .ok r₂ ∧
      (t.payoutOf (.int 40000) (.int 5) (.int 65)).result = .ok r₂ ∧
      r₁.val = 1000 ∧ r₂.val = 4000 ∧ r₁.val ≤ r₂.val ∧
      t.timeRewardOf (.int 7) (.int 8) = .ok c ∧ c.val = FillerTerms.standard.lowerBound.val := by
  intro t
  obtain ⟨grows, sameAge, bounded⟩ := reward_grows_with_fee_and_age FillerTerms.standard
  let five : I64 := ⟨5, by decide, by decide⟩
  let sixty : I64 := ⟨60, by decide, by decide⟩
  let later : I64 := ⟨65, by decide, by decide⟩
  obtain ⟨r₂, paid₂, value₂⟩ : ∃ r₂ : U128,
      (t.payoutOf (.int 40000) (.int 0) (.int 60)).result = .ok r₂ ∧ r₂.val = 4000 :=
    ⟨_, by with_unfolding_all rfl, by decide +kernel⟩
  obtain ⟨r₁, paid₁, value₁⟩ : ∃ r₁ : U128,
      (t.payoutOf (.int 10000) (.int 5) (.int 65)).result = .ok r₁ ∧ r₁.val = 1000 :=
    ⟨_, by with_unfolding_all rfl, by decide +kernel⟩
  obtain ⟨c, taken⟩ : ∃ c : U128, t.timeRewardOf (.int 7) (.int 8) = .ok c :=
    ⟨_, by with_unfolding_all rfl⟩
  obtain ⟨r, paid, le⟩ := grows 10000 40000 five later .zero sixty (by decide) (by decide)
    (by decide) (by decide) r₂ paid₂
  obtain rfl : r₁ = r := Except.ok.inj (paid₁.symm.trans paid)
  have moved := (sameAge 40000 five later .zero sixty rfl).trans paid₂
  exact ⟨r₁, r₂, c, paid₁, paid₂, moved, value₁, value₂, le, taken,
    (bounded 7 8 c taken).2 (.inr rfl)⟩

end FillerTerms
end ExchangeFees

import ExchangeFees.Proofs.Session.Conservation

/-! What a fill can cost the market. The market's part of a fill is signed because of the surplus
alone: what the taker's fee leaves is an amount, and so is what the filler leaves of a resting
order's surplus. Over a run the market therefore loses no more than what its own maker lost in
fills of takers, and the liquidity providers' part is never touched by a surplus. -/
namespace ExchangeFees

/-- A fill between two orders gives the providers nothing and takes nothing from the market. -/
theorem MatchedFill.forLp_of_fees {f : MatchedFill} {s : Schedule} {b : FillBreakdown}
    (fees : (f.fees s).result = .ok b) : b.feeToMarketForLp.val = 0 ∧ 0 ≤ b.feeToMarket.val := by
  obtain ⟨fee, d⟩ := fees_eq_ok.mp fees
  exact ⟨congrArg Checked.val d.forLp, d.toMarket_nonneg⟩

namespace AmmFill

variable {f : AmmFill} {s : Schedule} {b : FillBreakdown}

/-- A fill of a resting order gives the providers nothing and takes nothing from the market. -/
theorem forLp_of_resting_fees (fees : (f.fees s).result = .ok b) (resting : f.postOnly = true) :
    b.feeToMarketForLp.val = 0 ∧ 0 ≤ b.feeToMarket.val := by
  obtain ⟨surplus, fee, read, ⟨_, d⟩ | ⟨taker, _⟩⟩ := fees_eq_ok.mp fees
  · exact ⟨congrArg Checked.val d.forLp, d.toMarket_nonneg⟩
  · rw [resting] at taker
    cases taker

/-- A taker's fill gives the providers the market's part without the surplus, which is never
negative. -/
theorem forLp_of_taker_fees (fees : (f.fees s).result = .ok b) (taker : f.postOnly = false) :
    0 ≤ b.feeToMarketForLp.val ∧ ∃ surplus, f.surplus.toInteger = .ok surplus ∧
      b.feeToMarketForLp.val = b.feeToMarket.val - surplus := by
  obtain ⟨surplus, fee, read, ⟨resting, _⟩ | ⟨_, d⟩⟩ := fees_eq_ok.mp fees
  · rw [taker] at resting
    cases resting
  · have toMarket := d.toMarket
    exact ⟨d.forLp_nonneg, surplus.val, Checked.toInteger_of read, by omega⟩

end AmmFill

namespace Session

/-- What a step can cost the market: the surplus of a successful fill of a taker by the market's
own maker, if it is a loss. -/
def surplusLoss : Step → Except Error Answer → Int
  | .amm f, .ok _ =>
    if f.postOnly then 0 else
      match f.surplus.toInteger with
      | .ok surplus => min 0 surplus
      | .error _ => 0
  | _, _ => 0

/-- A fill that cannot cost the market anything: one between two orders, or of a resting order. -/
def Step.WithoutLoss : Step → Prop
  | .matched _ => True
  | .amm f => f.postOnly = true
  | _ => False

variable {s after : Session} {x : Step} {answer : Except Error Answer}

/-- A step costs the market no more than the loss in its surplus. -/
theorem Effect.market_ge (effect : Effect s x answer after) :
    s.market.val + surplusLoss x answer ≤ after.market.val := by
  cases effect with
  | failed x e => cases x <;> exact Int.le_of_eq (Int.add_zero _)
  | @amm f b market allowed fees moved =>
    cases mode : f.postOnly with
    | true =>
      have nonneg := (AmmFill.forLp_of_resting_fees fees mode).2
      simp only [surplusLoss, mode, if_true]
      omega
    | false =>
      obtain ⟨nonneg, surplus, read, forLp⟩ := AmmFill.forLp_of_taker_fees fees mode
      simp only [surplusLoss, mode, Bool.false_eq_true, if_false, read]
      omega
  | matched _ fees moved =>
    have nonneg := (MatchedFill.forLp_of_fees fees).2
    simp only [surplusLoss]
    omega
  | paused | replaced | rebuilt | venue => exact Int.le_of_eq (Int.add_zero _)

theorem surplusLoss_of_withoutLoss (withoutLoss : x.WithoutLoss) (answer : Except Error Answer) :
    surplusLoss x answer = 0 := by
  cases x with
  | amm f =>
    have resting : f.postOnly = true := withoutLoss
    cases answer with
    | error e => rfl
    | ok a => exact if_pos resting
  | matched f => rfl
  | setPaused | replace | rebuild | venue => rfl

/-- Up to every point of a run the market has lost no more than its own maker's losses in fills of
takers so far; no fill between two orders or of a resting order lowers it. The providers' part of
a fill is never negative: it is the market's part without the surplus in a taker's fill by the
market's own maker, and zero in every other. -/
theorem market_loses_only_surplus (s : Session) (steps : List Step) :
    (∀ n, s.market.val + (((s.visits steps).take n).map fun v =>
        surplusLoss v.2 (v.1.advance v.2).answer).sum ≤ (s.final (steps.take n)).market.val) ∧
    (∀ v ∈ s.visits steps, v.2.WithoutLoss →
      v.1.market.val ≤ (v.1.advance v.2).after.market.val) ∧
    (∀ (f : MatchedFill) schedule b, (f.fees schedule).result = .ok b →
      b.feeToMarketForLp.val = 0) ∧
    ∀ (f : AmmFill) schedule b, (f.fees schedule).result = .ok b →
      (f.postOnly = true → b.feeToMarketForLp.val = 0) ∧
      (f.postOnly = false → 0 ≤ b.feeToMarketForLp.val ∧ ∃ surplus,
        f.surplus.toInteger = .ok surplus ∧
        b.feeToMarketForLp.val = b.feeToMarket.val - surplus) := by
  have moves : ∀ (s : Session) (x : Step), s.market.val + surplusLoss x (s.advance x).answer ≤
      (s.advance x).after.market.val := fun s x => (effect_advance s x).market_ge
  refine ⟨fun n => ?_, ?_, ?_, ?_⟩
  · rw [visits_take]
    exact final_ge_sum (fun s => s.market.val) moves s _
  · intro v _ withoutLoss
    have least := moves v.1 v.2
    rwa [surplusLoss_of_withoutLoss withoutLoss, Int.add_zero] at least
  · intro f schedule b fees
    exact (MatchedFill.forLp_of_fees fees).1
  · intro f schedule b fees
    exact ⟨fun resting => (AmmFill.forLp_of_resting_fees fees resting).1,
      AmmFill.forLp_of_taker_fees fees⟩

/-- The market's own maker loses 50000 in a fill of a taker, of which the providers' part bears
none, and a fill between two orders brings 12000 back. -/
theorem own_loss_borne_by_market :
    let loss := AmmTrade.fill ⟨⟨40000000, 0, 0, true, true⟩, -50000, false⟩
    let order := MatchedTrade.fill ⟨40000000, 0, 0, true, false⟩
    let s : Session := ⟨.standard, .zero, .zero, .int 0⟩
    let steps := [Step.amm loss, .matched order]
    (s.run steps).map (fun o => (o.answer.isOk, o.after.market.val)) =
        [(true, -18000), (true, -6000)] ∧
      -50000 ≤ (s.final steps).market.val ∧
      (s.final [.amm loss]).market.val ≤ (s.final steps).market.val ∧
      ∃ b, (loss.fees s.schedule).result = .ok b ∧ 0 ≤ b.feeToMarketForLp.val ∧
        b.feeToMarketForLp.val = b.feeToMarket.val + 50000 := by
  intro loss order s steps
  obtain ⟨bounded, lossless, _, providers⟩ := market_loses_only_surplus s steps
  obtain ⟨b, fees⟩ : ∃ b, (loss.fees s.schedule).result = .ok b :=
    ⟨_, by with_unfolding_all rfl⟩
  obtain ⟨nonneg, surplus, read, part⟩ := (providers loss s.schedule b fees).2 rfl
  obtain rfl : -50000 = surplus := Except.ok.inj read
  have least : -50000 ≤ (s.final steps).market.val := by
    have total : (((s.visits steps).take 2).map fun v =>
        surplusLoss v.2 (v.1.advance v.2).answer).sum = -50000 := by decide +kernel
    have bound := bounded 2
    rw [total] at bound
    exact bound
  have second : ((s.advance (.amm loss)).after, Step.matched order) ∈ s.visits steps :=
    List.mem_cons_of_mem _ List.mem_cons_self
  exact ⟨by decide +kernel, least, lossless _ second trivial, b, fees, nonneg, by omega⟩

end Session
end ExchangeFees

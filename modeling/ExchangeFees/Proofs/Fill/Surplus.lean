import ExchangeFees.Proofs.Checked.Limits
import ExchangeFees.Proofs.Fill.Amm

/-! What a surplus moves. In a taker's fill by the market's own maker the surplus is added to what
the fee leaves for the market and to nothing else, at either sign and over the whole signed width.
A lesser surplus can therefore never make a fill fail, and a greater one only by carrying the
market's part beyond the upper bound. Schedules and values are arbitrary. -/
namespace ExchangeFees.AmmFill

variable {f : AmmFill} {s : Schedule} {surplus other : I128} {fee : U128} {b : FillBreakdown}

/-- Where a taker's fill returns with one surplus, it comes down to adding another one to what the
fee left. -/
theorem Distributes.takerFees_withSurplus (d : f.Distributes s surplus fee b) (other : I128) :
    (f.takerFees s other).result = do
      let toMarket ← b.feeToMarketForLp.add other.val
      return { b with feeToMarket := toMarket } := by
  rw [takerFees_of_covered d.gross d.referral d.userFee d.filler d.forLp d.forLp_nonneg,
    Checked.castInt_val, ok_bind]
  simp only [d.makerRebate]

/-- Only the upper bound can be in the way of another surplus, as what the fee left is not
negative. -/
theorem Distributes.withSurplus (d : f.Distributes s surplus fee b) (other : I128) :
    LimitedBy [b.feeToMarketForLp.val + other.val]
      (fun c => c = { b with feeToMarket := c.feeToMarket } ∧
        c.feeToMarket.val - b.feeToMarket.val = other.val - surplus.val)
      (f.takerFees s other).result := by
  have nonneg := d.forLp_nonneg
  have low := other.lo_le
  have toMarket := d.toMarket
  rw [d.takerFees_withSurplus other]
  exact (LimitedBy.add (by omega)).bind fun m added => .ok ⟨rfl, by dsimp only; omega⟩

theorem fees_withSurplus (taker : f.postOnly = false) {x : Value}
    (read : Checked.of .i128 x = .ok surplus) :
    ({ f with surplus := x }.fees s).result = (f.takerFees s surplus).result :=
  fees_of_taker (f := { f with surplus := x }) taker read

/-- A taker's fill that returns with one surplus returns with every lesser one, and with a greater
one unless what the fee leaves and that surplus exceed the signed width together. The breakdowns
then differ in the market's part alone, and there by as much as the surpluses. -/
theorem surplus_moves_market_alone (f : AmmFill) (s : Schedule) (taker : f.postOnly = false)
    (x₁ x₂ : Value) {s₁ s₂ : I128} (read₁ : Checked.of .i128 x₁ = .ok s₁)
    (read₂ : Checked.of .i128 x₂ = .ok s₂) (le : s₁.val ≤ s₂.val) :
    (∀ b₂, ({ f with surplus := x₂ }.fees s).result = .ok b₂ →
      ∃ b₁, ({ f with surplus := x₁ }.fees s).result = .ok b₁ ∧
        b₁ = { b₂ with feeToMarket := b₁.feeToMarket } ∧
        b₂.feeToMarket.val - b₁.feeToMarket.val = s₂.val - s₁.val) ∧
    ∀ b₁, ({ f with surplus := x₁ }.fees s).result = .ok b₁ →
      LimitedBy [b₁.feeToMarketForLp.val + s₂.val]
        (fun b₂ => b₂ = { b₁ with feeToMarket := b₂.feeToMarket } ∧
          b₂.feeToMarket.val - b₁.feeToMarket.val = s₂.val - s₁.val)
        ({ f with surplus := x₂ }.fees s).result := by
  rw [fees_withSurplus taker read₁, fees_withSurplus taker read₂]
  constructor
  · intro b₂ returned
    obtain ⟨fee, d⟩ := takerFees_eq_ok.mp returned
    have toMarket := d.toMarket
    have bound := b₂.feeToMarket.le_hi
    have fits : b₂.feeToMarketForLp.val + s₁.val ≤ Width.i128.hi := by omega
    have limited := d.withSurplus s₁
    obtain ⟨b₁, lesser⟩ := limited.returns.mpr (List.forall_mem_singleton.mpr fits)
    obtain ⟨same, moved⟩ := limited.described b₁ lesser
    exact ⟨b₁, lesser, same, by omega⟩
  · intro b₁ returned
    obtain ⟨fee, d⟩ := takerFees_eq_ok.mp returned
    exact d.withSurplus s₂

/-- A fee of ten is met by the least surplus of the signed width and by the greatest less ten, which
lie as far apart as the market's parts, and by no greater one. -/
theorem fee_of_ten_between_the_bounds :
    let f := AmmTrade.fill ⟨⟨10, 0, 0, false, false⟩, 0, false⟩
    let s := FeeSchedule.map Term.plain ⟨⟨.one, .one⟩, ⟨.one, .one⟩, .standard, .standard⟩
    (∃ b₁ b₂, ({ f with surplus := .int Width.i128.lo }.fees s).result = .ok b₁ ∧
      ({ f with surplus := .int (Width.i128.hi - 10) }.fees s).result = .ok b₂ ∧
      b₂.feeToMarket.val - b₁.feeToMarket.val = Width.i128.hi - 10 - Width.i128.lo) ∧
    ¬ ∃ b, ({ f with surplus := .int (Width.i128.hi - 9) }.fees s).result = .ok b := by
  intro f s
  constructor
  · obtain ⟨b₁, lesser, _, moved⟩ := (surplus_moves_market_alone f s rfl
      (.int Width.i128.lo) (.int (Width.i128.hi - 10)) rfl rfl (by decide)).1 _ rfl
    exact ⟨b₁, _, lesser, rfl, moved⟩
  · intro returned
    have limited := (surplus_moves_market_alone f s rfl (.int Width.i128.lo)
      (.int (Width.i128.hi - 9)) rfl rfl (by decide)).2 _ rfl
    exact absurd (List.forall_mem_singleton.mp (limited.returns.mp returned)) (by decide)

end ExchangeFees.AmmFill

import ExchangeFees.Fill.Amm
import ExchangeFees.Proofs.Fill.Matched

/-! Fills against the market's own maker, what they can return and their unbounded-integer
specification. The surplus is added to the market's part and taken off again for the liquidity
providers, whose part is therefore what the taker's fee leaves, and taking it off never fails;
after a resting order the surplus is the whole fee. What the taker's fee leaves has to fit the
signed width before the surplus is added, even where the sum alone would fit. -/
namespace ExchangeFees

namespace AmmFill

/-- How the gross fee of a taker is shared out. -/
structure Distributes (f : AmmFill) (s : Schedule) (surplus : I128) (fee : U128)
    (b : FillBreakdown) : Prop where
  gross : s.grossFee f.quoteAmount = .ok fee
  referral : s.referral.sharesIf f.rewardReferrer fee = .ok ⟨b.referrerReward, b.refereeDiscount⟩
  filler : (s.filler.payoutIf f.rewardFiller fee f.orderTs f.now).result = .ok b.fillerReward
  userFee : b.userFee.val = fee.val - b.refereeDiscount.val
  makerRebate : b.makerRebate = .zero
  forLp : b.feeToMarketForLp.val = b.userFee.val - b.fillerReward.val - b.referrerReward.val
  forLp_nonneg : 0 ≤ b.feeToMarketForLp.val
  toMarket : b.feeToMarket.val = b.feeToMarketForLp.val + surplus.val

/-- How the surplus of a resting order is shared out. -/
structure DistributesSurplus (f : AmmFill) (s : Schedule) (surplus : I128) (fee : U128)
    (b : FillBreakdown) : Prop where
  surplus : fee.val = surplus.val
  filler : (s.filler.payoutIf f.rewardFiller fee f.orderTs f.now).result = .ok b.fillerReward
  toMarket : b.feeToMarket.val = fee.val - b.fillerReward.val
  toMarket_nonneg : 0 ≤ b.feeToMarket.val
  userFee : b.userFee = .zero
  makerRebate : b.makerRebate = .zero
  forLp : b.feeToMarketForLp = .zero
  refereeDiscount : b.refereeDiscount = .zero
  referrerReward : b.referrerReward = .zero

variable {f : AmmFill} {s : Schedule} {surplus : I128} {b : FillBreakdown}

/-- A taker's fill that the user's fee covers converts what is left and adds the surplus. Taking
the surplus off again never fails. -/
theorem takerFees_of_covered {fee userFee filler : U128} {shares : ReferralShares} {left : Int}
    (gross : s.grossFee f.quoteAmount = .ok fee)
    (referral : s.referral.sharesIf f.rewardReferrer fee = .ok shares)
    (taken : userFee.val = fee.val - shares.refereeDiscount.val)
    (paid : (s.filler.payoutIf f.rewardFiller fee f.orderTs f.now).result = .ok filler)
    (kept : left = userFee.val - filler.val - shares.referrerReward.val) (covered : 0 ≤ left) :
    (f.takerFees s surplus).result = do
      let forLp ← Checked.castInt left .i128
      let toMarket ← forLp.add surplus.val
      return { userFee, makerRebate := .zero, feeToMarket := toMarket, feeToMarketForLp := forLp,
               fillerReward := filler, refereeDiscount := shares.refereeDiscount,
               referrerReward := shares.referrerReward } := by
  have := filler.nonneg
  have := shares.referrerReward.nonneg
  obtain ⟨unpaid, sub₁⟩ :=
    userFee.exists_le (n := userFee.val - filler.val) (by omega) (by omega)
  obtain ⟨unreferred, sub₂⟩ :=
    userFee.exists_le (n := unpaid.val - shares.referrerReward.val) (by omega) (by omega)
  obtain rfl : unreferred.val = left := by omega
  simp only [takerFees, Traced.result_bind, Traced.result_liftM, Traced.result_log,
    Traced.result_pure, gross, referral, Checked.sub_eq_ok.mpr taken, paid,
    Checked.sub_eq_ok.mpr sub₁, Checked.sub_eq_ok.mpr sub₂, ok_bind, Checked.cast]
  cases Checked.castInt unreferred.val .i128 with
  | error e => rfl
  | ok forLp =>
    simp only [ok_bind]
    cases added : forLp.add surplus.val with
    | error e => rfl
    | ok toMarket =>
      have sum := Checked.add_eq_ok.mp added
      have removed : toMarket.sub surplus.val = .ok forLp := Checked.sub_eq_ok.mpr (by omega)
      simp only [ok_bind, removed]
      rfl

theorem takerFees_eq_ok :
    (f.takerFees s surplus).result = .ok b ↔ ∃ fee, f.Distributes s surplus fee b := by
  constructor
  · intro returned
    simp only [takerFees, Traced.result_bind, Traced.result_liftM, Traced.result_log,
      Traced.result_pure, bind_eq_ok, Checked.add_eq_ok, Checked.sub_eq_ok, Checked.cast_eq_ok,
      Except.ok.injEq] at returned
    obtain ⟨fee, gross, ⟨reward, discount⟩, referred, userFee, taken, filler, paid, left₁, sub₁,
      left₂, sub₂, left₃, moved, toMarket, added, forLp, removed, _, _, rfl⟩ := returned
    have nonneg := left₂.nonneg
    dsimp only at *
    have left : forLp.val = userFee.val - filler.val - reward.val := by omega
    have market : toMarket.val = forLp.val + surplus.val := by omega
    exact ⟨fee, gross, referred, paid, taken, rfl, left, (by omega : 0 ≤ forLp.val), market⟩
  · rintro ⟨fee, d⟩
    rw [takerFees_of_covered d.gross d.referral d.userFee d.filler d.forLp d.forLp_nonneg,
      Checked.castInt_val, ok_bind, Checked.add_eq_ok.mpr d.toMarket, ← d.makerRebate]
    rfl

theorem postOnlyFees_eq_ok :
    (f.postOnlyFees s surplus).result = .ok b ↔ ∃ fee, f.DistributesSurplus s surplus fee b := by
  simp only [postOnlyFees, Traced.result_bind, Traced.result_liftM, Traced.result_log,
    Traced.result_pure, bind_eq_ok, Checked.sub_eq_ok, Checked.cast_eq_ok, Except.ok.injEq]
  constructor
  · rintro ⟨fee, cast, filler, paid, left, sub, toMarket, moved, _, _, rfl⟩
    have market : toMarket.val = fee.val - filler.val := by omega
    have nonneg : 0 ≤ toMarket.val := moved ▸ left.nonneg
    exact ⟨fee, cast, paid, market, nonneg, rfl, rfl, rfl, rfl, rfl⟩
  · rintro ⟨fee, d⟩
    have filler := b.fillerReward.nonneg
    have nonneg := d.toMarket_nonneg
    have toMarket := d.toMarket
    obtain ⟨left, sub⟩ := fee.exists_le (n := fee.val - b.fillerReward.val) (by omega) (by omega)
    refine ⟨fee, d.surplus, b.fillerReward, d.filler, left, sub, b.feeToMarket, by omega, (),
      trivial, ?_⟩
    obtain ⟨userFee, makerRebate, feeToMarket, forLp, paid, discount, reward⟩ := b
    obtain ⟨-, -, -, -, rfl, rfl, rfl, rfl, rfl⟩ := d
    rfl

/-- Everything that a fill against the market's own maker can return. -/
theorem fees_eq_ok :
    (f.fees s).result = .ok b ↔ ∃ surplus fee, Checked.of .i128 f.surplus = .ok surplus ∧
      (f.postOnly = true ∧ f.DistributesSurplus s surplus fee b ∨
        f.postOnly = false ∧ f.Distributes s surplus fee b) := by
  simp only [fees, Traced.result_bind, Traced.result_liftM, bind_eq_ok]
  cases f.postOnly with
  | false => simp [takerFees_eq_ok]
  | true => simp [postOnlyFees_eq_ok]

theorem fees_of_taker (taker : f.postOnly = false)
    (read : Checked.of .i128 f.surplus = .ok surplus) :
    (f.fees s).result = (f.takerFees s surplus).result := by
  simp only [fees, Traced.result_bind, Traced.result_liftM, read, ok_bind, taker,
    Bool.false_eq_true, if_false]

theorem exists_distributes (taker : f.postOnly = false) (returned : (f.fees s).result = .ok b) :
    ∃ surplus fee, Checked.of .i128 f.surplus = .ok surplus ∧ f.Distributes s surplus fee b := by
  obtain ⟨surplus, fee, read, ⟨resting, _⟩ | ⟨_, d⟩⟩ := fees_eq_ok.mp returned
  · rw [taker] at resting
    cases resting
  · exact ⟨surplus, fee, read, d⟩

/-- Over any schedule and any arguments a fill fails by arithmetic, or as an argument or a term
fails to be taken for what it stands for. -/
theorem fees_failsOnly {faults : Error → Prop} (arithmetic : ∀ fault, faults (.arithmetic fault))
    {f : AmmFill} {s : Schedule} (reads : ∀ x ∈ s.terms, x.ReadsOnly faults)
    (quoteAmount : f.quoteAmount.ReadsOnly faults) (orderTs : f.orderTs.ReadsOnly faults)
    (now : f.now.ReadsOnly faults) (surplus : f.surplus.ReadsOnly faults) :
    FailsOnly faults (f.fees s).result := by
  obtain ⟨feeReads, _, referralReads, fillerReads⟩ := FeeSchedule.forall_terms.mp reads
  simp only [fees, Traced.result_bind, Traced.result_liftM]
  refine (surplus _).bind fun surplus => ?_
  split
  · simp only [postOnlyFees, Traced.result_bind, Traced.result_liftM, Traced.result_log,
      Traced.result_pure]
    refine (Checked.cast_failsOnly arithmetic _ _).bind fun fee => ?_
    refine (FillerTerms.payoutIf_failsOnly arithmetic fillerReads orderTs now _ _).bind
      fun filler => ?_
    refine (Checked.ofResult_failsOnly arithmetic _ _).bind fun left => ?_
    refine (Checked.cast_failsOnly arithmetic _ _).bind fun toMarket => ?_
    exact (FailsOnly.ok ()).bind fun _ => .ok _
  · simp only [takerFees, Traced.result_bind, Traced.result_liftM, Traced.result_log,
      Traced.result_pure]
    refine (FeeSchedule.grossFee_failsOnly arithmetic feeReads quoteAmount).bind fun fee => ?_
    refine (ReferralTerms.sharesIf_failsOnly arithmetic referralReads _ _).bind fun referral => ?_
    refine (Checked.ofResult_failsOnly arithmetic _ _).bind fun userFee => ?_
    refine (FillerTerms.payoutIf_failsOnly arithmetic fillerReads orderTs now _ _).bind
      fun filler => ?_
    refine (Checked.ofResult_failsOnly arithmetic _ _).bind fun left => ?_
    refine (Checked.ofResult_failsOnly arithmetic _ _).bind fun left => ?_
    refine (Checked.cast_failsOnly arithmetic _ _).bind fun left => ?_
    refine (Checked.ofResult_failsOnly arithmetic _ _).bind fun toMarket => ?_
    refine (Checked.ofResult_failsOnly arithmetic _ _).bind fun forLp => ?_
    exact (FailsOnly.ok ()).bind fun _ => .ok _

end AmmFill

/-- A fill against the market's own maker whose scalars are plain integers: those of a fill
between two orders, and the surplus and the mode. -/
structure AmmTrade extends MatchedTrade where
  surplus : Int
  postOnly : Bool

namespace AmmTrade

def fill (t : AmmTrade) : AmmFill where
  quoteAmount := .int t.quoteAmount
  orderTs := .int t.orderTs
  now := .int t.now
  rewardFiller := t.rewardFiller
  rewardReferrer := t.rewardReferrer
  surplus := .int t.surplus
  postOnly := t.postOnly

variable (t : AmmTrade) (s : FeeSchedule U128)

/-- What a taker's gross fee leaves for the market, in unbounded integers. -/
def left (filler : Int) : Int :=
  t.gross s - t.refereeDiscount s - filler - t.referrerReward s

/-- The filler's reward off the surplus of a resting order. -/
def restingReward? : Option Int := s.filler.rewardIf? t.rewardFiller t.surplus t.orderTs t.now

/-- The exact condition under which a taker's trade settles with a reward for the filler. -/
structure Settles (filler : Int) : Prop where
  surplus : Width.i128.Holds t.surplus
  quoteAmount : Width.u128.Holds t.quoteAmount
  fee : s.fee.Takes t.quoteAmount
  referral : s.referral.TakesIf t.rewardReferrer (t.gross s)
  rewarded : t.fillerReward? s = some filler
  funded : 0 ≤ t.left s filler
  left_fits : t.left s filler ≤ Width.i128.hi
  fits : t.left s filler + t.surplus ≤ Width.i128.hi

/-- The breakdown of a taker's trade, field by field. -/
structure Describes (filler : Int) (b : FillBreakdown) : Prop where
  userFee : b.userFee.val = t.gross s - t.refereeDiscount s
  makerRebate : b.makerRebate.val = 0
  feeToMarket : b.feeToMarket.val = t.left s filler + t.surplus
  feeToMarketForLp : b.feeToMarketForLp.val = t.left s filler
  fillerReward : b.fillerReward.val = filler
  refereeDiscount : b.refereeDiscount.val = t.refereeDiscount s
  referrerReward : b.referrerReward.val = t.referrerReward s

/-- The exact condition under which a trade with a resting order settles. -/
structure RestingSettles (filler : Int) : Prop where
  surplus_nonneg : 0 ≤ t.surplus
  surplus_fits : t.surplus ≤ Width.i128.hi
  rewarded : t.restingReward? s = some filler
  funded : filler ≤ t.surplus

/-- The breakdown of a trade with a resting order, field by field. -/
structure RestingDescribes (filler : Int) (b : FillBreakdown) : Prop where
  userFee : b.userFee.val = 0
  makerRebate : b.makerRebate.val = 0
  feeToMarket : b.feeToMarket.val = t.surplus - filler
  feeToMarketForLp : b.feeToMarketForLp.val = 0
  fillerReward : b.fillerReward.val = filler
  refereeDiscount : b.refereeDiscount.val = 0
  referrerReward : b.referrerReward.val = 0

variable {t s} {filler : Int} {b : FillBreakdown}

theorem Settles.parts (c : t.Settles s filler) :
    (∃ fee : U128, fee.val = t.gross s) ∧ 0 ≤ t.referrerReward s ∧ 0 ≤ t.refereeDiscount s ∧
      0 ≤ filler := by
  obtain ⟨fee, gross⟩ : ∃ fee : U128, fee.val = t.gross s := Checked.exists_val.mpr
    ⟨s.fee.floor_nonneg c.quoteAmount.lo_le, s.fee.floor_le c.quoteAmount.lo_le c.fee⟩
  have nonneg : 0 ≤ t.gross s := gross ▸ fee.nonneg
  have rewarded := c.rewarded
  rw [MatchedTrade.fillerReward?, ← gross] at rewarded
  obtain ⟨paid, rfl⟩ := FillerTerms.exists_of_rewardIf? rewarded
  exact ⟨⟨fee, gross⟩, s.referral.rewardIf_nonneg t.rewardReferrer nonneg,
    s.referral.discountIf_nonneg t.rewardReferrer nonneg, paid.nonneg⟩

theorem Settles.exists_describes (c : t.Settles s filler) : ∃ b, t.Describes s filler b := by
  obtain ⟨⟨fee, gross⟩, reward, discount, paid⟩ := c.parts
  have funded := c.funded
  have low := c.surplus.lo_le
  have i128_nonpos := Width.i128.lo_nonpos
  have whole : t.left s filler =
    t.gross s - t.refereeDiscount s - filler - t.referrerReward s := rfl
  obtain ⟨userFee, userFeeVal⟩ :=
    fee.exists_le (n := t.gross s - t.refereeDiscount s) (by omega) (by omega)
  obtain ⟨referrerReward, rewardVal⟩ := fee.exists_le reward (by omega)
  obtain ⟨refereeDiscount, discountVal⟩ := fee.exists_le discount (by omega)
  obtain ⟨fillerReward, paidVal⟩ := fee.exists_le paid (by omega)
  obtain ⟨feeToMarketForLp, leftVal⟩ :=
    Checked.exists_val.mpr ((Width.i128_holds funded).mpr c.left_fits)
  obtain ⟨feeToMarket, marketVal⟩ := Checked.exists_val.mpr
    (⟨by omega, c.fits⟩ : Width.i128.Holds (t.left s filler + t.surplus))
  exact ⟨{ userFee, makerRebate := .zero, feeToMarket, feeToMarketForLp, fillerReward,
           refereeDiscount, referrerReward },
    userFeeVal, rfl, marketVal, leftVal, paidVal, discountVal, rewardVal⟩

theorem taker_fees_eq_ok (taker : t.postOnly = false) :
    (t.fill.fees (s.map .plain)).result = .ok b ↔
      ∃ filler, t.Settles s filler ∧ t.Describes s filler b := by
  have mode : t.fill.postOnly = false := taker
  simp only [AmmFill.fees_eq_ok, mode, Bool.false_eq_true, false_and, false_or, true_and]
  constructor
  · rintro ⟨surplus, fee, read, d⟩
    have surplusVal : surplus.val = t.surplus := Checked.of_int_eq_ok.mp read
    obtain ⟨held, takesFee, gross⟩ := FeeSchedule.grossFee_plain_eq_ok.mp d.gross
    have gross : fee.val = t.gross s := gross
    obtain ⟨takesReferral, reward, discount⟩ := ReferralTerms.sharesIf_plain_eq_ok.mp d.referral
    have rewarded := FillerTerms.payoutIf_plain_eq_ok.mp d.filler
    rw [gross] at takesReferral reward discount rewarded
    have reward : b.referrerReward.val = t.referrerReward s := reward
    have discount : b.refereeDiscount.val = t.refereeDiscount s := discount
    have userFee := d.userFee
    have forLp : b.feeToMarketForLp.val = t.left s b.fillerReward.val := by
      have part := d.forLp
      unfold left
      omega
    have toMarket := d.toMarket
    rw [forLp, surplusVal] at toMarket
    exact ⟨b.fillerReward.val,
      ⟨surplusVal ▸ ⟨surplus.lo_le, surplus.le_hi⟩, held, takesFee, takesReferral, rewarded,
        forLp ▸ d.forLp_nonneg, forLp ▸ b.feeToMarketForLp.le_hi,
        toMarket ▸ b.feeToMarket.le_hi⟩,
      ⟨by omega, by rw [d.makerRebate]; rfl, toMarket, forLp, rfl, discount, reward⟩⟩
  · rintro ⟨filler, c, r⟩
    obtain ⟨⟨fee, gross⟩, _⟩ := c.parts
    obtain ⟨surplus, surplusVal⟩ := Checked.exists_val.mpr c.surplus
    have funded := c.funded
    have userFee := r.userFee
    have toMarket := r.feeToMarket
    have forLp := r.feeToMarketForLp
    have reward := r.referrerReward
    have discount := r.refereeDiscount
    obtain rfl := r.fillerReward
    have whole : t.left s b.fillerReward.val =
      t.gross s - t.refereeDiscount s - b.fillerReward.val - t.referrerReward s := rfl
    refine ⟨surplus, fee, Checked.of_int_eq_ok.mpr surplusVal, ?_, ?_, ?_, by omega,
      Checked.ext r.makerRebate, by omega, by omega, by omega⟩
    · exact FeeSchedule.grossFee_plain_eq_ok.mpr ⟨c.quoteAmount, c.fee, gross⟩
    · exact ReferralTerms.sharesIf_plain_eq_ok.mpr
        ⟨gross ▸ c.referral, gross ▸ reward, gross ▸ discount⟩
    · exact FillerTerms.payoutIf_plain_eq_ok.mpr (gross ▸ c.rewarded)

theorem RestingSettles.exists_fee (c : t.RestingSettles s filler) :
    ∃ fee : U128, fee.val = t.surplus := by
  have fits := c.surplus_fits
  have wider := Width.i128_hi_le
  exact Checked.exists_val.mpr ⟨c.surplus_nonneg, by omega⟩

theorem RestingSettles.filler_nonneg (c : t.RestingSettles s filler) : 0 ≤ filler := by
  obtain ⟨fee, surplus⟩ := c.exists_fee
  have rewarded := c.rewarded
  rw [restingReward?, ← surplus] at rewarded
  obtain ⟨paid, rfl⟩ := FillerTerms.exists_of_rewardIf? rewarded
  exact paid.nonneg

theorem RestingSettles.exists_describes (c : t.RestingSettles s filler) :
    ∃ b, t.RestingDescribes filler b := by
  obtain ⟨fee, surplus⟩ := c.exists_fee
  have paid := c.filler_nonneg
  have funded := c.funded
  have fits := c.surplus_fits
  obtain ⟨fillerReward, paidVal⟩ := fee.exists_le paid (by omega)
  obtain ⟨feeToMarket, marketVal⟩ := Checked.exists_val.mpr
    ((Width.i128_holds (n := t.surplus - filler) (by omega)).mpr (by omega))
  exact ⟨{ userFee := .zero, makerRebate := .zero, feeToMarket, feeToMarketForLp := .zero,
           fillerReward, refereeDiscount := .zero, referrerReward := .zero },
    rfl, rfl, marketVal, rfl, paidVal, rfl, rfl⟩

theorem resting_fees_eq_ok (resting : t.postOnly = true) :
    (t.fill.fees (s.map .plain)).result = .ok b ↔
      ∃ filler, t.RestingSettles s filler ∧ t.RestingDescribes filler b := by
  have mode : t.fill.postOnly = true := resting
  simp only [AmmFill.fees_eq_ok, mode, Bool.true_eq_false, false_and, or_false, true_and]
  constructor
  · rintro ⟨surplus, fee, read, d⟩
    have surplusVal : surplus.val = t.surplus := Checked.of_int_eq_ok.mp read
    have feeVal : fee.val = t.surplus := d.surplus.trans surplusVal
    have rewarded := FillerTerms.payoutIf_plain_eq_ok.mp d.filler
    rw [feeVal] at rewarded
    have nonneg := fee.nonneg
    have fits := surplus.le_hi
    have toMarket := d.toMarket
    have funded := d.toMarket_nonneg
    exact ⟨b.fillerReward.val, ⟨by omega, by omega, rewarded, by omega⟩,
      ⟨by rw [d.userFee]; rfl, by rw [d.makerRebate]; rfl, by omega, by rw [d.forLp]; rfl, rfl,
        by rw [d.refereeDiscount]; rfl, by rw [d.referrerReward]; rfl⟩⟩
  · rintro ⟨filler, c, r⟩
    obtain ⟨fee, feeVal⟩ := c.exists_fee
    obtain ⟨surplus, surplusVal⟩ := Checked.exists_val.mpr
      ((Width.i128_holds c.surplus_nonneg).mpr c.surplus_fits)
    have funded := c.funded
    have toMarket := r.feeToMarket
    obtain rfl := r.fillerReward
    exact ⟨surplus, fee, Checked.of_int_eq_ok.mpr surplusVal, feeVal.trans surplusVal.symm,
      FillerTerms.payoutIf_plain_eq_ok.mpr (feeVal ▸ c.rewarded), by omega, by omega,
      Checked.ext r.userFee, Checked.ext r.makerRebate, Checked.ext r.feeToMarketForLp,
      Checked.ext r.refereeDiscount, Checked.ext r.referrerReward⟩

/-- The integers that a trade is given. -/
def given (t : AmmTrade) : List Int := [t.quoteAmount, t.orderTs, t.now, t.surplus]

theorem fees_failsOnly {faults : Error → Prop} (arithmetic : ∀ fault, faults (.arithmetic fault))
    {s : Schedule} (reads : ∀ x ∈ s.terms, x.ReadsOnly faults) (t : AmmTrade)
    (long : ∀ n ∈ t.given, ¬ Text.IsShort n → faults .longInteger) :
    FailsOnly faults (t.fill.fees s).result := by
  have integer (n : Int) (member : n ∈ t.given) : (Value.int n).ReadsOnly faults :=
    Value.readsOnly_int arithmetic (long n member)
  exact AmmFill.fees_failsOnly arithmetic reads (integer _ (by simp [given]))
    (integer _ (by simp [given])) (integer _ (by simp [given])) (integer _ (by simp [given]))

theorem fees_plain_arithmetical (t : AmmTrade) (s : FeeSchedule U128) :
    Arithmetical t.given (t.fill.fees (s.map .plain)).result :=
  .of_failsOnly fun _ arithmetic => fees_failsOnly arithmetic (Term.readsOnly_map_plain s) t

theorem fees_of_long_surplus {t : AmmTrade} (long : ¬ Text.IsShort t.surplus) (s : Schedule) :
    (t.fill.fees s).result = .error .longInteger := by
  have refused : Checked.of .i128 t.fill.surplus = .error .longInteger := Checked.ofInt_of_long long
  simp only [AmmFill.fees, Traced.result_bind, Traced.result_liftM, refused]
  rfl

/-- A taker's amount is looked at after the surplus. -/
theorem fees_of_long_amount {t : AmmTrade} (taker : t.postOnly = false)
    (held : Width.i128.Holds t.surplus) (long : ¬ Text.IsShort t.quoteAmount) (s : Schedule) :
    (t.fill.fees s).result = .error .longInteger := by
  obtain ⟨surplus, value⟩ := Checked.exists_val.mpr held
  have read : Checked.of .i128 t.fill.surplus = .ok surplus := Checked.of_int_eq_ok.mpr value
  have refused : s.grossFee t.fill.quoteAmount = .error .longInteger :=
    FeeSchedule.grossFee_of_long s long
  have mode : t.fill.postOnly = false := taker
  simp only [AmmFill.fees, AmmFill.takerFees, Traced.result_bind, Traced.result_liftM, read,
    ok_bind, mode, refused, Bool.false_eq_true, if_false]
  rfl

/-- A trade against the market's own maker returns exactly if it settles in its mode, then with
the exact breakdown; otherwise it fails by arithmetic, or because an integer that it is given is too
long to be written, as it does if the surplus is, or the amount of a taker's trade after a surplus
in range. Taking the surplus off again gives back what it was added to and never fails. -/
theorem amm_fees_exact (t : AmmTrade) (s : FeeSchedule U128) :
    (t.postOnly = false →
      ((∃ b, (t.fill.fees (s.map .plain)).result = .ok b) ↔ ∃ filler, t.Settles s filler) ∧
      ∀ b, (t.fill.fees (s.map .plain)).result = .ok b →
        ∃ filler, t.fillerReward? s = some filler ∧ t.Describes s filler b) ∧
    (t.postOnly = true →
      ((∃ b, (t.fill.fees (s.map .plain)).result = .ok b) ↔
        ∃ filler, t.RestingSettles s filler) ∧
      ∀ b, (t.fill.fees (s.map .plain)).result = .ok b →
        ∃ filler, t.restingReward? s = some filler ∧ t.RestingDescribes filler b) ∧
    (∀ e, (t.fill.fees (s.map .plain)).result = .error e → (∃ fault, e = .arithmetic fault) ∨
      e = .longInteger ∧ ∃ n ∈ [t.quoteAmount, t.orderTs, t.now, t.surplus], ¬ Text.IsShort n) ∧
    (¬ Text.IsShort t.surplus ∨
        t.postOnly = false ∧ Width.i128.Holds t.surplus ∧ ¬ Text.IsShort t.quoteAmount →
      (t.fill.fees (s.map .plain)).result = .error .longInteger) ∧
    ∀ left surplus toMarket : I128, left.add surplus.val = .ok toMarket →
      toMarket.sub surplus.val = .ok left := by
  refine ⟨fun taker => ⟨?_, fun b returned => ?_⟩, fun resting => ⟨?_, fun b returned => ?_⟩,
    fees_plain_arithmetical t s, ?_, fun left surplus toMarket added => ?_⟩
  · exact exists_ok_iff (fun _ => taker_fees_eq_ok taker) fun _ => Settles.exists_describes
  · obtain ⟨filler, c, r⟩ := (taker_fees_eq_ok taker).mp returned
    exact ⟨filler, c.rewarded, r⟩
  · exact exists_ok_iff (fun _ => resting_fees_eq_ok resting)
      fun _ => RestingSettles.exists_describes
  · obtain ⟨filler, c, r⟩ := (resting_fees_eq_ok resting).mp returned
    exact ⟨filler, c.rewarded, r⟩
  · rintro (long | ⟨taker, held, long⟩)
    · exact fees_of_long_surplus long _
    · exact fees_of_long_amount taker held long _
  · have sum := Checked.add_eq_ok.mp added
    exact Checked.sub_eq_ok.mpr (by omega)

/-- At a fee ratio of one and a surplus of minus one a taker's trade settles up to a fee that
fits the signed width, and one more fails although its sum with the surplus would fit. -/
theorem left_fits_before_surplus :
    (∃ b, ((fill ⟨⟨Width.i128.hi, 0, 0, false, false⟩, -1, false⟩).fees
      (FeeSchedule.map .plain ⟨⟨.one, .one⟩, ⟨.one, .one⟩, .standard, .standard⟩)).result =
        .ok b) ∧
    ¬ ∃ b, ((fill ⟨⟨Width.i128.hi + 1, 0, 0, false, false⟩, -1, false⟩).fees
      (FeeSchedule.map .plain ⟨⟨.one, .one⟩, ⟨.one, .one⟩, .standard, .standard⟩)).result =
        .ok b := by
  constructor
  · refine ((amm_fees_exact _ _).1 rfl).1.mpr ⟨0, ?_⟩
    exact ⟨⟨by decide, by decide⟩, ⟨by decide, by decide⟩, ⟨by decide, by decide⟩, nofun, rfl,
      by decide, by decide, by decide⟩
  · intro returned
    obtain ⟨filler, settles⟩ := ((amm_fees_exact _ _).1 rfl).1.mp returned
    obtain rfl : 0 = filler := Option.some.inj settles.rewarded
    exact absurd settles.left_fits (by decide)

/-- A surplus with a digit more than are written fails otherwise than by arithmetic. -/
theorem long_surplus_against_amm :
    ((fill ⟨⟨100, 0, 0, false, false⟩, 10 ^ Text.digitLimit, false⟩).fees
      (FeeSchedule.standard.map .plain)).result = .error .longInteger :=
  fees_of_long_surplus Text.not_isShort_pow _

end AmmTrade
end ExchangeFees

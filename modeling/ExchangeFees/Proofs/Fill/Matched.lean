import ExchangeFees.Fill.Matched
import ExchangeFees.Proofs.Reward

/-! Fills between two orders against their unbounded-integer specification. A fill of plain
integers over a plain schedule returns exactly if the guards of its shares hold and the gross
fee covers everything that is given away; the four stepwise subtractions then amount to one
condition on their sum. Any other such fill fails by arithmetic. -/
namespace ExchangeFees

/-- How the gross fee of a fill between two orders is shared out. -/
structure MatchedFill.Distributes (f : MatchedFill) (s : Schedule) (fee : U128)
    (b : FillBreakdown) : Prop where
  gross : s.grossFee f.quoteAmount = .ok fee
  rebate : s.makerRebate.share fee = .ok b.makerRebate
  referral : s.referral.sharesIf f.rewardReferrer fee = .ok ⟨b.referrerReward, b.refereeDiscount⟩
  filler : (s.filler.payoutIf f.rewardFiller fee f.orderTs f.now).result = .ok b.fillerReward
  userFee : b.userFee.val = fee.val - b.refereeDiscount.val
  toMarket : b.feeToMarket.val =
    b.userFee.val - b.fillerReward.val - b.referrerReward.val - b.makerRebate.val
  toMarket_nonneg : 0 ≤ b.feeToMarket.val
  forLp : b.feeToMarketForLp = .zero

/-- A fill between two orders that the user's fee covers converts what is left. -/
theorem MatchedFill.fees_of_covered {f : MatchedFill} {s : Schedule}
    {fee rebate userFee filler : U128} {shares : ReferralShares} {left : Int}
    (gross : s.grossFee f.quoteAmount = .ok fee) (rebated : s.makerRebate.share fee = .ok rebate)
    (referral : s.referral.sharesIf f.rewardReferrer fee = .ok shares)
    (taken : userFee.val = fee.val - shares.refereeDiscount.val)
    (paid : (s.filler.payoutIf f.rewardFiller fee f.orderTs f.now).result = .ok filler)
    (kept : left = userFee.val - filler.val - shares.referrerReward.val - rebate.val)
    (covered : 0 ≤ left) :
    (f.fees s).result = do
      let toMarket ← Checked.castInt left .i128
      return { userFee, makerRebate := rebate, feeToMarket := toMarket, feeToMarketForLp := .zero,
               fillerReward := filler, refereeDiscount := shares.refereeDiscount,
               referrerReward := shares.referrerReward } := by
  have := filler.nonneg
  have := shares.referrerReward.nonneg
  have := rebate.nonneg
  obtain ⟨unpaid, sub₁⟩ :=
    userFee.exists_le (n := userFee.val - filler.val) (by omega) (by omega)
  obtain ⟨unreferred, sub₂⟩ :=
    userFee.exists_le (n := unpaid.val - shares.referrerReward.val) (by omega) (by omega)
  obtain ⟨unrebated, sub₃⟩ :=
    userFee.exists_le (n := unreferred.val - rebate.val) (by omega) (by omega)
  obtain rfl : unrebated.val = left := by omega
  simp only [fees, Traced.result_bind, Traced.result_liftM, Traced.result_log, Traced.result_pure,
    gross, rebated, referral, Checked.sub_eq_ok.mpr taken, paid, Checked.sub_eq_ok.mpr sub₁,
    Checked.sub_eq_ok.mpr sub₂, Checked.sub_eq_ok.mpr sub₃, ok_bind]
  rfl

/-- Everything that a fill between two orders can return. -/
theorem MatchedFill.fees_eq_ok {f : MatchedFill} {s : Schedule} {b : FillBreakdown} :
    (f.fees s).result = .ok b ↔ ∃ fee, f.Distributes s fee b := by
  constructor
  · intro returned
    simp only [fees, Traced.result_bind, Traced.result_liftM, Traced.result_log,
      Traced.result_pure, bind_eq_ok, Checked.sub_eq_ok, Checked.cast_eq_ok,
      Except.ok.injEq] at returned
    obtain ⟨fee, gross, rebate, rebated, ⟨reward, discount⟩, referred, takerFee, taken, filler,
      paid, left₁, sub₁, left₂, sub₂, left₃, sub₃, toMarket, moved, _, _, rfl⟩ := returned
    have nonneg := left₃.nonneg
    refine ⟨fee, gross, rebated, referred, paid, taken, ?_, ?_, rfl⟩
    · dsimp only at *
      omega
    · dsimp only
      omega
  · rintro ⟨fee, d⟩
    rw [fees_of_covered d.gross d.rebate d.referral d.userFee d.filler d.toMarket
      d.toMarket_nonneg, Checked.castInt_val, ← d.forLp]
    rfl

/-- Over any schedule and any arguments a fill fails by arithmetic, or as an argument or a term
fails to be taken for what it stands for. -/
theorem MatchedFill.fees_failsOnly {faults : Error → Prop}
    (arithmetic : ∀ fault, faults (.arithmetic fault)) {f : MatchedFill} {s : Schedule}
    (reads : ∀ x ∈ s.terms, x.ReadsOnly faults) (quoteAmount : f.quoteAmount.ReadsOnly faults)
    (orderTs : f.orderTs.ReadsOnly faults) (now : f.now.ReadsOnly faults) :
    FailsOnly faults (f.fees s).result := by
  obtain ⟨feeReads, rebateReads, referralReads, fillerReads⟩ := FeeSchedule.forall_terms.mp reads
  simp only [fees, Traced.result_bind, Traced.result_liftM, Traced.result_log, Traced.result_pure]
  refine (FeeSchedule.grossFee_failsOnly arithmetic feeReads quoteAmount).bind fun fee => ?_
  refine (Ratio.share_failsOnly arithmetic rebateReads _).bind fun rebate => ?_
  refine (ReferralTerms.sharesIf_failsOnly arithmetic referralReads _ _).bind fun referral => ?_
  refine (Checked.ofResult_failsOnly arithmetic _ _).bind fun takerFee => ?_
  refine (FillerTerms.payoutIf_failsOnly arithmetic fillerReads orderTs now _ _).bind
    fun filler => ?_
  refine (Checked.ofResult_failsOnly arithmetic _ _).bind fun left => ?_
  refine (Checked.ofResult_failsOnly arithmetic _ _).bind fun left => ?_
  refine (Checked.ofResult_failsOnly arithmetic _ _).bind fun left => ?_
  refine (Checked.cast_failsOnly arithmetic _ _).bind fun toMarket => ?_
  exact (FailsOnly.ok ()).bind fun _ => .ok _

/-- A fill between two orders whose scalars are plain integers. -/
structure MatchedTrade where
  quoteAmount : Int
  orderTs : Int
  now : Int
  rewardFiller : Bool
  rewardReferrer : Bool

namespace MatchedTrade

/-- The fill of a trade. -/
def fill (t : MatchedTrade) : MatchedFill where
  quoteAmount := .int t.quoteAmount
  orderTs := .int t.orderTs
  now := .int t.now
  rewardFiller := t.rewardFiller
  rewardReferrer := t.rewardReferrer

variable (t : MatchedTrade) (s : FeeSchedule U128)

/-! The amounts of a trade in unbounded integers. -/

def gross : Int := s.fee.floor t.quoteAmount

def rebate : Int := s.makerRebate.floor (t.gross s)

def referrerReward : Int := s.referral.rewardIf t.rewardReferrer (t.gross s)

def refereeDiscount : Int := s.referral.discountIf t.rewardReferrer (t.gross s)

def fillerReward? : Option Int :=
  s.filler.rewardIf? t.rewardFiller (t.gross s) t.orderTs t.now

/-- The exact condition under which a trade settles with a reward for the filler. -/
structure Settles (filler : Int) : Prop where
  quoteAmount : Width.u128.Holds t.quoteAmount
  fee : s.fee.Takes t.quoteAmount
  makerRebate : s.makerRebate.Takes (t.gross s)
  referral : s.referral.TakesIf t.rewardReferrer (t.gross s)
  rewarded : t.fillerReward? s = some filler
  funded : t.refereeDiscount s + filler + t.referrerReward s + t.rebate s ≤ t.gross s
  fits : t.gross s - t.refereeDiscount s - filler - t.referrerReward s - t.rebate s ≤ Width.i128.hi

/-- The breakdown of a trade, field by field. -/
structure Describes (filler : Int) (b : FillBreakdown) : Prop where
  userFee : b.userFee.val = t.gross s - t.refereeDiscount s
  makerRebate : b.makerRebate.val = t.rebate s
  feeToMarket : b.feeToMarket.val =
    t.gross s - t.refereeDiscount s - filler - t.referrerReward s - t.rebate s
  feeToMarketForLp : b.feeToMarketForLp.val = 0
  fillerReward : b.fillerReward.val = filler
  refereeDiscount : b.refereeDiscount.val = t.refereeDiscount s
  referrerReward : b.referrerReward.val = t.referrerReward s

variable {t s} {filler : Int} {b : FillBreakdown}

/-- The gross fee of a trade that settles is an amount, and no part of it is negative. -/
theorem Settles.parts (c : t.Settles s filler) :
    (∃ fee : U128, fee.val = t.gross s) ∧ 0 ≤ t.rebate s ∧ 0 ≤ t.referrerReward s ∧
      0 ≤ t.refereeDiscount s ∧ 0 ≤ filler := by
  obtain ⟨fee, gross⟩ : ∃ fee : U128, fee.val = t.gross s := Checked.exists_val.mpr
    ⟨s.fee.floor_nonneg c.quoteAmount.lo_le, s.fee.floor_le c.quoteAmount.lo_le c.fee⟩
  have nonneg : 0 ≤ t.gross s := gross ▸ fee.nonneg
  have rewarded := c.rewarded
  rw [fillerReward?, ← gross] at rewarded
  obtain ⟨paid, rfl⟩ := FillerTerms.exists_of_rewardIf? rewarded
  exact ⟨⟨fee, gross⟩, s.makerRebate.floor_nonneg nonneg,
    s.referral.rewardIf_nonneg t.rewardReferrer nonneg,
    s.referral.discountIf_nonneg t.rewardReferrer nonneg, paid.nonneg⟩

theorem Settles.exists_describes (c : t.Settles s filler) : ∃ b, t.Describes s filler b := by
  obtain ⟨⟨fee, gross⟩, rebate, reward, discount, paid⟩ := c.parts
  have funded := c.funded
  have low := Width.i128_lo_eq
  have i128_nonneg := Width.i128.hi_nonneg
  obtain ⟨userFee, userFeeVal⟩ :=
    fee.exists_le (n := t.gross s - t.refereeDiscount s) (by omega) (by omega)
  obtain ⟨makerRebate, rebateVal⟩ := fee.exists_le rebate (by omega)
  obtain ⟨referrerReward, rewardVal⟩ := fee.exists_le reward (by omega)
  obtain ⟨refereeDiscount, discountVal⟩ := fee.exists_le discount (by omega)
  obtain ⟨fillerReward, paidVal⟩ := fee.exists_le paid (by omega)
  obtain ⟨feeToMarket, marketVal⟩ := Checked.exists_val.mpr
    (⟨by omega, c.fits⟩ : Width.i128.Holds (t.gross s - t.refereeDiscount s - filler -
      t.referrerReward s - t.rebate s))
  exact ⟨{ userFee, makerRebate, feeToMarket, feeToMarketForLp := .zero, fillerReward,
           refereeDiscount, referrerReward },
    userFeeVal, rebateVal, marketVal, rfl, paidVal, discountVal, rewardVal⟩

/-- A trade returns exactly the breakdowns of those that settle. -/
theorem fees_plain_eq_ok :
    (t.fill.fees (s.map .plain)).result = .ok b ↔
      ∃ filler, t.Settles s filler ∧ t.Describes s filler b := by
  rw [MatchedFill.fees_eq_ok]
  constructor
  · rintro ⟨fee, d⟩
    obtain ⟨held, takesFee, gross⟩ := FeeSchedule.grossFee_plain_eq_ok.mp d.gross
    have gross : fee.val = t.gross s := gross
    obtain ⟨takesRebate, rebate⟩ := Ratio.share_plain_eq_ok.mp d.rebate
    obtain ⟨takesReferral, reward, discount⟩ := ReferralTerms.sharesIf_plain_eq_ok.mp d.referral
    have rewarded := FillerTerms.payoutIf_plain_eq_ok.mp d.filler
    rw [gross] at takesRebate rebate takesReferral reward discount rewarded
    have rebate : b.makerRebate.val = t.rebate s := rebate
    have reward : b.referrerReward.val = t.referrerReward s := reward
    have discount : b.refereeDiscount.val = t.refereeDiscount s := discount
    have userFee := d.userFee
    have toMarket := d.toMarket
    have funded := d.toMarket_nonneg
    have fits := b.feeToMarket.le_hi
    exact ⟨b.fillerReward.val,
      ⟨held, takesFee, takesRebate, takesReferral, rewarded, by omega, by omega⟩,
      ⟨by omega, rebate, by omega, by rw [d.forLp]; rfl, rfl, discount, reward⟩⟩
  · rintro ⟨filler, c, r⟩
    obtain ⟨⟨fee, gross⟩, _⟩ := c.parts
    have funded := c.funded
    have userFee := r.userFee
    have toMarket := r.feeToMarket
    have rebate := r.makerRebate
    have reward := r.referrerReward
    have discount := r.refereeDiscount
    obtain rfl := r.fillerReward
    refine ⟨fee, ?_, ?_, ?_, ?_, by omega, by omega, by omega, Checked.ext r.feeToMarketForLp⟩
    · exact FeeSchedule.grossFee_plain_eq_ok.mpr ⟨c.quoteAmount, c.fee, gross⟩
    · exact Ratio.share_plain_eq_ok.mpr ⟨gross ▸ c.makerRebate, gross ▸ rebate⟩
    · exact ReferralTerms.sharesIf_plain_eq_ok.mpr
        ⟨gross ▸ c.referral, gross ▸ reward, gross ▸ discount⟩
    · exact FillerTerms.payoutIf_plain_eq_ok.mpr (gross ▸ c.rewarded)

/-- The integers that a trade is given. -/
def given (t : MatchedTrade) : List Int := [t.quoteAmount, t.orderTs, t.now]

/-- Over any schedule a trade fails by arithmetic, as a term fails to be taken for an amount, or
because an integer is too long to be written. -/
theorem fees_failsOnly {faults : Error → Prop} (arithmetic : ∀ fault, faults (.arithmetic fault))
    {s : Schedule} (reads : ∀ x ∈ s.terms, x.ReadsOnly faults) (t : MatchedTrade)
    (long : ∀ n ∈ t.given, ¬ Text.IsShort n → faults .longInteger) :
    FailsOnly faults (t.fill.fees s).result := by
  have integer (n : Int) (member : n ∈ t.given) : (Value.int n).ReadsOnly faults :=
    Value.readsOnly_int arithmetic (long n member)
  exact MatchedFill.fees_failsOnly arithmetic reads (integer _ (by simp [given]))
    (integer _ (by simp [given])) (integer _ (by simp [given]))

theorem fees_plain_arithmetical (t : MatchedTrade) (s : FeeSchedule U128) :
    Arithmetical t.given (t.fill.fees (s.map .plain)).result :=
  .of_failsOnly fun _ arithmetic => fees_failsOnly arithmetic (Term.readsOnly_map_plain s) t

/-- An amount that is too long to be written is refused at once. -/
theorem fees_of_long {t : MatchedTrade} (long : ¬ Text.IsShort t.quoteAmount) (s : Schedule) :
    (t.fill.fees s).result = .error .longInteger := by
  simp only [fill, MatchedFill.fees, Traced.result_bind, Traced.result_liftM,
    FeeSchedule.grossFee_of_long s long]
  rfl

/-- A trade between two orders returns exactly if it settles, then with the exact breakdown
and a market's part that is not negative; otherwise it fails by arithmetic, or because an integer
that it is given is too long to be written, as it does if the amount is. -/
theorem matched_fees_exact (t : MatchedTrade) (s : FeeSchedule U128) :
    ((∃ b, (t.fill.fees (s.map .plain)).result = .ok b) ↔ ∃ filler, t.Settles s filler) ∧
    (∀ b, (t.fill.fees (s.map .plain)).result = .ok b →
      ∃ filler, t.fillerReward? s = some filler ∧ t.Describes s filler b ∧
        0 ≤ b.feeToMarket.val) ∧
    (∀ e, (t.fill.fees (s.map .plain)).result = .error e → (∃ fault, e = .arithmetic fault) ∨
      e = .longInteger ∧ ∃ n ∈ [t.quoteAmount, t.orderTs, t.now], ¬ Text.IsShort n) ∧
    (¬ Text.IsShort t.quoteAmount → (t.fill.fees (s.map .plain)).result = .error .longInteger) := by
  refine ⟨exists_ok_iff (fun _ => fees_plain_eq_ok) fun _ => Settles.exists_describes, ?_,
    fees_plain_arithmetical t s, fun long => fees_of_long long _⟩
  intro b returned
  obtain ⟨filler, c, r⟩ := fees_plain_eq_ok.mp returned
  have toMarket := r.feeToMarket
  have funded := c.funded
  exact ⟨filler, c.rewarded, r, by omega⟩

/-- An amount with a digit more than are written fails otherwise than by arithmetic. -/
theorem long_amount_between_orders :
    ((fill ⟨10 ^ Text.digitLimit, 0, 0, false, false⟩).fees
      (FeeSchedule.standard.map .plain)).result = .error .longInteger :=
  fees_of_long Text.not_isShort_pow _

end MatchedTrade
end ExchangeFees

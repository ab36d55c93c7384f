import ExchangeFees.Fill.Venue
import ExchangeFees.Proofs.Reward

/-! Fills on an outside venue against their unbounded-integer specification. The user's fee is
never below what the venue took, so the excess over it always exists, and so does the change of
the pool once its two sides fit the signed width; a large pool can still make the reward exceed
what the venue left, and then the fill fails. -/
namespace ExchangeFees

/-- The reward off the user's fee, cut to what is available, if the filler is to have one. -/
def FillerTerms.PaysWithin (t : FillerTerms Term) (wanted : Bool) (userFee : U128)
    (available : Int) (orderTs now : Value) (paid : U128) : Prop :=
  if wanted then ∃ reward, (t.payout userFee orderTs now).result = .ok reward ∧
    paid.val = min reward.val available
  else paid.val = 0

theorem FillerTerms.payoutWithin_eq_ok {t : FillerTerms Term} {wanted : Bool}
    {fee taken pool paid : U128} {orderTs now : Value} :
    (t.payoutWithin wanted (fee.max taken) taken pool orderTs now).result = .ok paid ↔
      t.PaysWithin wanted (fee.max taken) (max ((fee.max taken).val - taken.val) pool.val)
        orderTs now paid := by
  cases wanted with
  | false => simp [payoutWithin, PaysWithin, Checked.ext_iff, eq_comm]
  | true =>
    obtain ⟨excess, left⟩ := Checked.exists_max_sub fee taken taken.nonneg (Int.le_refl _)
    have excessVal := Checked.sub_eq_ok.mp left
    simp only [payoutWithin, PaysWithin, if_true, Traced.result_bind, Traced.result_liftM,
      Traced.result_pure, bind_eq_ok, left, Except.ok.injEq, exists_eq_left']
    constructor
    · rintro ⟨reward, paid, rfl⟩
      exact ⟨reward, paid, by rw [Checked.val_min, Checked.val_max, excessVal]⟩
    · rintro ⟨reward, paid, value⟩
      refine ⟨reward, paid, Checked.ext ?_⟩
      rw [Checked.val_min, Checked.val_max, excessVal, value]

theorem FillerTerms.payoutWithin_failsOnly {faults : Error → Prop}
    (arithmetic : ∀ fault, faults (.arithmetic fault)) {t : FillerTerms Term}
    (reads : ∀ x ∈ t.terms, x.ReadsOnly faults) {orderTs now : Value}
    (placed : orderTs.ReadsOnly faults) (filled : now.ReadsOnly faults) (wanted : Bool)
    (userFee taken pool : U128) :
    FailsOnly faults (t.payoutWithin wanted userFee taken pool orderTs now).result := by
  cases wanted with
  | false => exact .ok _
  | true =>
    simp only [payoutWithin, if_true, Traced.result_bind, Traced.result_liftM, Traced.result_pure]
    refine (Checked.ofResult_failsOnly arithmetic _ _).bind fun excess => ?_
    exact (payout_failsOnly arithmetic reads placed filled _).bind fun reward => .ok _

/-- How the user's fee of a fill on an outside venue is shared out. -/
structure VenueFill.Distributes (f : VenueFill) (s : Schedule) (fee venueFee rebate pool : U128)
    (b : VenueBreakdown) : Prop where
  gross : s.grossFee f.quoteAmount = .ok fee
  readVenueFee : Checked.of .u128 f.venueFee = .ok venueFee
  readRebate : Checked.of .u128 f.referrerRebate = .ok rebate
  readPool : Checked.of .u128 f.feePool = .ok pool
  taken : venueFee.val + rebate.val ≤ Width.u128.hi
  userFee : b.userFee.val = max fee.val (venueFee.val + rebate.val)
  filler : s.filler.PaysWithin f.rewardFiller b.userFee
    (max (b.userFee.val - venueFee.val - rebate.val) pool.val) f.orderTs f.now b.fillerReward
  toMarket : b.feeToMarket.val = b.userFee.val - venueFee.val - b.fillerReward.val
  toMarket_fits : b.feeToMarket.val ≤ Width.i128.hi
  rebate_fits : rebate.val ≤ Width.i128.hi
  delta : b.feePoolDelta.val = b.feeToMarket.val - rebate.val

/-- A fill on an outside venue whose filler and rebate are covered converts what the venue and the
filler left, and takes the rebate off it for the pool. -/
theorem VenueFill.fees_of_covered {f : VenueFill} {s : Schedule}
    {fee venueFee rebate pool userFee filler left : U128}
    (gross : s.grossFee f.quoteAmount = .ok fee)
    (readVenueFee : Checked.of .u128 f.venueFee = .ok venueFee)
    (readRebate : Checked.of .u128 f.referrerRebate = .ok rebate)
    (readPool : Checked.of .u128 f.feePool = .ok pool)
    (taken : venueFee.val + rebate.val ≤ Width.u128.hi)
    (greater : userFee.val = max fee.val (venueFee.val + rebate.val))
    (paid : s.filler.PaysWithin f.rewardFiller userFee
      (max (userFee.val - venueFee.val - rebate.val) pool.val) f.orderTs f.now filler)
    (kept : left.val = userFee.val - venueFee.val - filler.val)
    (rebate_fits : rebate.val ≤ Width.i128.hi) :
    (f.fees s).result = do
      let signed ← left.cast .i128
      let delta ← signed.sub rebate.val
      return { userFee, feeToMarket := left, feePoolDelta := delta, fillerReward := filler } := by
  have := venueFee.nonneg
  have := filler.nonneg
  have := left.nonneg
  obtain ⟨sum, sumVal⟩ : ∃ sum : U128, sum.val = venueFee.val + rebate.val :=
    Checked.exists_val.mpr ⟨Int.add_nonneg venueFee.nonneg rebate.nonneg, taken⟩
  obtain rfl : fee.max sum = userFee := by
    apply Checked.ext
    rw [Checked.val_max, sumVal, greater]
  rw [Int.sub_sub, ← sumVal] at paid
  obtain ⟨unvenued, sub₁⟩ :=
    (fee.max sum).exists_le (n := (fee.max sum).val - venueFee.val) (by omega) (by omega)
  have sub₂ : left.val = unvenued.val - filler.val := by omega
  obtain ⟨signed, signedVal⟩ :=
    Checked.exists_val.mpr ((Width.i128_holds rebate.nonneg).mpr rebate_fits)
  simp only [fees, Traced.result_bind, Traced.result_liftM, Traced.result_log, Traced.result_pure,
    gross, readVenueFee, readRebate, readPool, Checked.add_eq_ok.mpr sumVal,
    FillerTerms.payoutWithin_eq_ok.mpr paid, Checked.sub_eq_ok.mpr sub₁, Checked.sub_eq_ok.mpr sub₂,
    Checked.cast_eq_ok.mpr signedVal, signedVal, ok_bind]
  rfl

/-- Everything that a fill on an outside venue can return. -/
theorem VenueFill.fees_eq_ok {f : VenueFill} {s : Schedule} {b : VenueBreakdown} :
    (f.fees s).result = .ok b ↔ ∃ fee venueFee rebate pool,
      f.Distributes s fee venueFee rebate pool b := by
  constructor
  · intro returned
    simp only [fees, Traced.result_bind, Traced.result_liftM, Traced.result_log,
      Traced.result_pure, bind_eq_ok, Checked.add_eq_ok, Checked.sub_eq_ok, Checked.cast_eq_ok,
      Except.ok.injEq, FillerTerms.payoutWithin_eq_ok] at returned
    obtain ⟨fee, gross, venueFee, readFee, rebate, readRebate, pool, readPool, taken, takenVal,
      filler, paid, left, leftVal, toMarket, marketVal, signed, signedVal, rebateSigned,
      rebateVal, delta, deltaVal, _, _, rfl⟩ := returned
    have bound := taken.le_hi
    have marketFits := signed.le_hi
    have rebateFits := rebateSigned.le_hi
    have userFee := Checked.val_max fee taken
    rw [takenVal] at userFee paid bound
    rw [← Int.sub_sub] at paid
    have market : toMarket.val = (fee.max taken).val - venueFee.val - filler.val := by omega
    have change : delta.val = toMarket.val - rebate.val := by omega
    exact ⟨fee, venueFee, rebate, pool, gross, readFee, readRebate, readPool, bound, userFee,
      paid, market, signedVal ▸ marketFits, rebateVal ▸ rebateFits, change⟩
  · rintro ⟨fee, venueFee, rebate, pool, d⟩
    obtain ⟨signed, signedVal⟩ :=
      Checked.exists_val.mpr ((Width.i128_holds b.feeToMarket.nonneg).mpr d.toMarket_fits)
    have delta := d.delta
    rw [← signedVal] at delta
    rw [fees_of_covered d.gross d.readVenueFee d.readRebate d.readPool d.taken d.userFee d.filler
      d.toMarket d.rebate_fits, Checked.cast_eq_ok.mpr signedVal, ok_bind,
      Checked.sub_eq_ok.mpr delta]
    rfl

/-- Over any schedule and any arguments a fill fails by arithmetic, or as an argument or a term
fails to be taken for what it stands for. -/
theorem VenueFill.fees_failsOnly {faults : Error → Prop}
    (arithmetic : ∀ fault, faults (.arithmetic fault)) {f : VenueFill} {s : Schedule}
    (reads : ∀ x ∈ s.terms, x.ReadsOnly faults) (quoteAmount : f.quoteAmount.ReadsOnly faults)
    (orderTs : f.orderTs.ReadsOnly faults) (now : f.now.ReadsOnly faults)
    (venueFee : f.venueFee.ReadsOnly faults) (referrerRebate : f.referrerRebate.ReadsOnly faults)
    (feePool : f.feePool.ReadsOnly faults) : FailsOnly faults (f.fees s).result := by
  obtain ⟨feeReads, _, _, fillerReads⟩ := FeeSchedule.forall_terms.mp reads
  simp only [fees, Traced.result_bind, Traced.result_liftM, Traced.result_log, Traced.result_pure]
  refine (FeeSchedule.grossFee_failsOnly arithmetic feeReads quoteAmount).bind fun fee => ?_
  refine (venueFee _).bind fun venueFee => ?_
  refine (referrerRebate _).bind fun rebate => ?_
  refine (feePool _).bind fun pool => ?_
  refine (Checked.ofResult_failsOnly arithmetic _ _).bind fun taken => ?_
  refine (FillerTerms.payoutWithin_failsOnly arithmetic fillerReads orderTs now _ _ _ _).bind
    fun filler => ?_
  refine (Checked.ofResult_failsOnly arithmetic _ _).bind fun left => ?_
  refine (Checked.ofResult_failsOnly arithmetic _ _).bind fun toMarket => ?_
  refine (Checked.cast_failsOnly arithmetic _ _).bind fun signed => ?_
  refine (Checked.cast_failsOnly arithmetic _ _).bind fun rebateSigned => ?_
  refine (Checked.ofResult_failsOnly arithmetic _ _).bind fun delta => ?_
  exact (FailsOnly.ok ()).bind fun _ => .ok _

/-- A fill on an outside venue whose scalars are plain integers. -/
structure VenueTrade where
  quoteAmount : Int
  orderTs : Int
  now : Int
  rewardFiller : Bool
  venueFee : Int
  referrerRebate : Int
  feePool : Int

namespace VenueTrade

/-- The fill of a trade. -/
def fill (t : VenueTrade) : VenueFill where
  quoteAmount := .int t.quoteAmount
  orderTs := .int t.orderTs
  now := .int t.now
  rewardFiller := t.rewardFiller
  venueFee := .int t.venueFee
  referrerRebate := .int t.referrerRebate
  feePool := .int t.feePool

variable (t : VenueTrade) (s : FeeSchedule U128)

/-! The amounts of a trade in unbounded integers. -/

def userFee : Int := max (s.fee.floor t.quoteAmount) (t.venueFee + t.referrerRebate)

def excess : Int := t.userFee s - t.venueFee - t.referrerRebate

def fillerReward? : Option Int :=
  if t.rewardFiller then
    (s.filler.reward? (t.userFee s) t.orderTs t.now).map (min · (max (t.excess s) t.feePool))
  else some 0

/-- The exact condition under which a trade settles with a reward for the filler. -/
structure Settles (filler : Int) : Prop where
  quoteAmount : Width.u128.Holds t.quoteAmount
  venueFee : Width.u128.Holds t.venueFee
  referrerRebate : Width.u128.Holds t.referrerRebate
  feePool : Width.u128.Holds t.feePool
  fee : s.fee.Takes t.quoteAmount
  taken : t.venueFee + t.referrerRebate ≤ Width.u128.hi
  rewarded : t.fillerReward? s = some filler
  funded : filler ≤ t.userFee s - t.venueFee
  fits : t.userFee s - t.venueFee - filler ≤ Width.i128.hi
  rebate_fits : t.referrerRebate ≤ Width.i128.hi

/-- The breakdown of a trade, field by field. -/
structure Describes (filler : Int) (b : VenueBreakdown) : Prop where
  userFee : b.userFee.val = t.userFee s
  fillerReward : b.fillerReward.val = filler
  feeToMarket : b.feeToMarket.val = t.userFee s - t.venueFee - filler
  feePoolDelta : b.feePoolDelta.val = t.userFee s - t.venueFee - filler - t.referrerRebate

variable {t s} {filler : Int} {b : VenueBreakdown}

/-- The filler of a trade is paid within what is available. -/
theorem paysWithin_plain {fee paid : U128} (userFee : fee.val = t.userFee s) :
    (s.filler.map .plain).PaysWithin t.rewardFiller fee (max (t.excess s) t.feePool)
      (.int t.orderTs) (.int t.now) paid ↔ t.fillerReward? s = some paid.val := by
  unfold FillerTerms.PaysWithin fillerReward?
  cases t.rewardFiller with
  | false => simp [eq_comm]
  | true =>
    simp only [if_true, FillerTerms.payout_plain_eq_ok, userFee, Option.map_eq_some_iff]
    constructor
    · rintro ⟨reward, rewarded, value⟩
      exact ⟨reward.val, rewarded, value.symm⟩
    · rintro ⟨n, rewarded, value⟩
      rw [← userFee] at rewarded
      obtain ⟨reward, _, rfl⟩ := FillerTerms.reward?_eq_some.mp rewarded
      exact ⟨reward, userFee ▸ rewarded, value.symm⟩

theorem Settles.userFee_held (c : t.Settles s filler) : Width.u128.Holds (t.userFee s) := by
  have nonneg := s.fee.floor_nonneg c.quoteAmount.lo_le
  have bound := s.fee.floor_le c.quoteAmount.lo_le c.fee
  have taken := c.taken
  unfold userFee
  exact ⟨by simp only [Width.lo]; omega, by omega⟩

theorem Settles.filler_nonneg (c : t.Settles s filler) : 0 ≤ filler := by
  have rewarded := c.rewarded
  unfold fillerReward? at rewarded
  cases wanted : t.rewardFiller with
  | false =>
    simp only [wanted] at rewarded
    exact Int.le_of_eq (Option.some.inj rewarded)
  | true =>
    obtain ⟨fee, userFee⟩ := Checked.exists_val.mpr c.userFee_held
    simp only [wanted, if_true, Option.map_eq_some_iff, ← userFee] at rewarded
    obtain ⟨n, defined, value⟩ := rewarded
    obtain ⟨reward, _, rfl⟩ := FillerTerms.reward?_eq_some.mp defined
    have := reward.nonneg
    have pool : 0 ≤ t.feePool := c.feePool.lo_le
    omega

theorem Settles.exists_describes (c : t.Settles s filler) : ∃ b, t.Describes s filler b := by
  have venueFee : 0 ≤ t.venueFee := c.venueFee.lo_le
  have rebate : 0 ≤ t.referrerRebate := c.referrerRebate.lo_le
  have paid := c.filler_nonneg
  have funded := c.funded
  have fits := c.fits
  have rebateFits := c.rebate_fits
  have low := Width.i128_lo_eq
  obtain ⟨userFee, userFeeVal⟩ := Checked.exists_val.mpr c.userFee_held
  obtain ⟨fillerReward, paidVal⟩ := userFee.exists_le paid (by omega)
  obtain ⟨feeToMarket, marketVal⟩ :=
    userFee.exists_le (n := t.userFee s - t.venueFee - filler) (by omega) (by omega)
  obtain ⟨feePoolDelta, deltaVal⟩ := Checked.exists_val.mpr
    (⟨by omega, by omega⟩ : Width.i128.Holds
      (t.userFee s - t.venueFee - filler - t.referrerRebate))
  exact ⟨{ userFee, feeToMarket, feePoolDelta, fillerReward },
    userFeeVal, paidVal, marketVal, deltaVal⟩

/-- A trade returns exactly the breakdowns of those that settle. -/
theorem fees_plain_eq_ok :
    (t.fill.fees (s.map .plain)).result = .ok b ↔
      ∃ filler, t.Settles s filler ∧ t.Describes s filler b := by
  rw [VenueFill.fees_eq_ok]
  constructor
  · rintro ⟨fee, venueFee, rebate, pool, d⟩
    obtain ⟨held, takesFee, gross⟩ := FeeSchedule.grossFee_plain_eq_ok.mp d.gross
    have venueFeeVal : venueFee.val = t.venueFee := Checked.of_int_eq_ok.mp d.readVenueFee
    have rebateVal : rebate.val = t.referrerRebate := Checked.of_int_eq_ok.mp d.readRebate
    have poolVal : pool.val = t.feePool := Checked.of_int_eq_ok.mp d.readPool
    have userFee : b.userFee.val = t.userFee s := by
      rw [d.userFee, gross, venueFeeVal, rebateVal]
      rfl
    have taken := d.taken
    have filler := d.filler
    have toMarket := d.toMarket
    have delta := d.delta
    have nonneg := b.feeToMarket.nonneg
    have fits := d.toMarket_fits
    have rebateFits := d.rebate_fits
    rw [userFee, venueFeeVal, rebateVal, poolVal] at filler
    exact ⟨b.fillerReward.val,
      ⟨held, venueFeeVal ▸ ⟨venueFee.lo_le, venueFee.le_hi⟩,
        rebateVal ▸ ⟨rebate.lo_le, rebate.le_hi⟩, poolVal ▸ ⟨pool.lo_le, pool.le_hi⟩, takesFee,
        by omega, (paysWithin_plain userFee).mp filler, by omega, by omega, by omega⟩,
      ⟨userFee, rfl, by omega, by omega⟩⟩
  · rintro ⟨filler, c, r⟩
    obtain ⟨fee, gross⟩ := Checked.exists_val.mpr
      (⟨s.fee.floor_nonneg c.quoteAmount.lo_le, s.fee.floor_le c.quoteAmount.lo_le c.fee⟩ :
        Width.u128.Holds (s.fee.floor t.quoteAmount))
    obtain ⟨venueFee, venueFeeVal⟩ := Checked.exists_val.mpr c.venueFee
    obtain ⟨rebate, rebateVal⟩ := Checked.exists_val.mpr c.referrerRebate
    obtain ⟨pool, poolVal⟩ := Checked.exists_val.mpr c.feePool
    have taken := c.taken
    have fits := c.fits
    have rebateFits := c.rebate_fits
    have userFee := r.userFee
    have toMarket := r.feeToMarket
    have delta := r.feePoolDelta
    obtain rfl := r.fillerReward
    refine ⟨fee, venueFee, rebate, pool, ?_, ?_, ?_, ?_, by omega, ?_, ?_, by omega, by omega,
      by omega, by omega⟩
    · exact FeeSchedule.grossFee_plain_eq_ok.mpr ⟨c.quoteAmount, c.fee, gross⟩
    · exact Checked.of_int_eq_ok.mpr venueFeeVal
    · exact Checked.of_int_eq_ok.mpr rebateVal
    · exact Checked.of_int_eq_ok.mpr poolVal
    · rw [userFee, gross, venueFeeVal, rebateVal]
      rfl
    · rw [userFee, venueFeeVal, rebateVal, poolVal]
      exact (paysWithin_plain userFee).mpr c.rewarded

/-- The integers that a trade is given. -/
def given (t : VenueTrade) : List Int :=
  [t.quoteAmount, t.orderTs, t.now, t.venueFee, t.referrerRebate, t.feePool]

/-- Over any schedule a trade fails by arithmetic, as a term fails to be taken for an amount, or
because an integer is too long to be written. -/
theorem fees_failsOnly {faults : Error → Prop} (arithmetic : ∀ fault, faults (.arithmetic fault))
    {s : Schedule} (reads : ∀ x ∈ s.terms, x.ReadsOnly faults) (t : VenueTrade)
    (long : ∀ n ∈ t.given, ¬ Text.IsShort n → faults .longInteger) :
    FailsOnly faults (t.fill.fees s).result := by
  have integer (n : Int) (member : n ∈ t.given) : (Value.int n).ReadsOnly faults :=
    Value.readsOnly_int arithmetic (long n member)
  exact VenueFill.fees_failsOnly arithmetic reads (integer _ (by simp [given]))
    (integer _ (by simp [given])) (integer _ (by simp [given])) (integer _ (by simp [given]))
    (integer _ (by simp [given])) (integer _ (by simp [given]))

theorem fees_plain_arithmetical (t : VenueTrade) (s : FeeSchedule U128) :
    Arithmetical t.given (t.fill.fees (s.map .plain)).result :=
  .of_failsOnly fun _ arithmetic => fees_failsOnly arithmetic (Term.readsOnly_map_plain s) t

/-- An amount that is too long to be written is refused at once. -/
theorem fees_of_long {t : VenueTrade} (long : ¬ Text.IsShort t.quoteAmount) (s : Schedule) :
    (t.fill.fees s).result = .error .longInteger := by
  simp only [fill, VenueFill.fees, Traced.result_bind, Traced.result_liftM,
    FeeSchedule.grossFee_of_long s long]
  rfl

/-- A trade on an outside venue returns exactly if it settles, then with the exact breakdown;
otherwise it fails by arithmetic, or because an integer that it is given is too long to be written,
as it does if the amount is. Taking what the venue took off the user's fee, selecting the greater or
lesser amount and the last signed difference are never what fails. -/
theorem venue_fees_exact (t : VenueTrade) (s : FeeSchedule U128) :
    ((∃ b, (t.fill.fees (s.map .plain)).result = .ok b) ↔ ∃ filler, t.Settles s filler) ∧
    (∀ b, (t.fill.fees (s.map .plain)).result = .ok b →
      ∃ filler, t.fillerReward? s = some filler ∧ t.Describes s filler b) ∧
    (∀ e, (t.fill.fees (s.map .plain)).result = .error e → (∃ fault, e = .arithmetic fault) ∨
      e = .longInteger ∧ ∃ n ∈ [t.quoteAmount, t.orderTs, t.now, t.venueFee, t.referrerRebate,
        t.feePool], ¬ Text.IsShort n) ∧
    (¬ Text.IsShort t.quoteAmount → (t.fill.fees (s.map .plain)).result = .error .longInteger) ∧
    (∀ fee venueFee rebate taken : U128, venueFee.add rebate.val = .ok taken →
      (∃ left, (fee.max taken).sub taken.val = .ok left) ∧
        ∃ left, (fee.max taken).sub venueFee.val = .ok left) ∧
    (∀ a b : U128, a.maxOf b.toValue = .ok (a.max b) ∧ a.minOf b.toValue = .ok (a.min b)) ∧
    (∀ (toMarket rebate : U128) (m r : I128), toMarket.cast .i128 = .ok m →
      rebate.cast .i128 = .ok r → ∃ delta, m.sub r.val = .ok delta) := by
  refine ⟨exists_ok_iff (fun _ => fees_plain_eq_ok) fun _ => Settles.exists_describes, ?_,
    fees_plain_arithmetical t s, fun long => fees_of_long long _, ?_, ?_, ?_⟩
  · intro b returned
    obtain ⟨filler, c, r⟩ := fees_plain_eq_ok.mp returned
    exact ⟨filler, c.rewarded, r⟩
  · intro fee venueFee rebate taken added
    have sum := Checked.add_eq_ok.mp added
    have nonneg := rebate.nonneg
    exact ⟨Checked.exists_max_sub fee taken taken.nonneg (Int.le_refl _),
      Checked.exists_max_sub fee taken venueFee.nonneg (by omega)⟩
  · intro a b
    exact ⟨a.maxOf_toValue b, a.minOf_toValue b⟩
  · intro toMarket rebate m r left right
    exact Checked.exists_signed_sub left right

/-- An amount with a digit more than are written fails otherwise than by arithmetic. -/
theorem long_amount_on_venue :
    ((fill ⟨10 ^ Text.digitLimit, 0, 0, false, 0, 0, 0⟩).fees
      (FeeSchedule.standard.map .plain)).result = .error .longInteger :=
  fees_of_long Text.not_isShort_pow _

end VenueTrade
end ExchangeFees

import ExchangeFees.Proofs.Terms
import ExchangeFees.Proportion

/-! Shares against their floored ratios. A share is taken exactly if the product fits and
the denominator is not zero, and it is then the floor of the ratio in unbounded integers.
It fails by arithmetic or as its terms fail to be taken for amounts. -/
namespace ExchangeFees

namespace Ratio

/-- The share of `n` in unbounded integers, rounded down. -/
def floor (r : Ratio U128) (n : Int) : Int := n * r.numerator.val / r.denominator.val

/-- The guards of a share: the denominator is not zero and the product fits. -/
def Takes (r : Ratio U128) (n : Int) : Prop :=
  r.denominator.val ≠ 0 ∧ n * r.numerator.val ≤ Width.u128.hi

/-- Both terms of a ratio of values are amounts. -/
def Reads (r : Ratio Value) (p : Ratio U128) : Prop :=
  Checked.of .u128 r.numerator = .ok p.numerator ∧
    Checked.of .u128 r.denominator = .ok p.denominator

theorem floor_nonneg (r : Ratio U128) {n : Int} (h : 0 ≤ n) : 0 ≤ r.floor n :=
  Int.ediv_nonneg (Int.mul_nonneg h r.numerator.nonneg) r.denominator.nonneg

theorem floor_le (r : Ratio U128) {n : Int} (h : 0 ≤ n) (takes : r.Takes n) :
    r.floor n ≤ Width.u128.hi := by
  have product := Int.mul_nonneg h r.numerator.nonneg
  exact Int.le_trans (Int.ediv_le_self _ product) takes.2

theorem take_eq_ok {r : Ratio Value} {amount c : U128} :
    r.take amount = .ok c ↔
      ∃ p, r.Reads p ∧ p.Takes amount.val ∧ c.val = p.floor amount.val := by
  simp only [take, bind_eq_ok, Checked.mul_eq_ok, Checked.div_eq_ok]
  constructor
  · rintro ⟨n, readN, product, exact, d, readD, nonzero, quotient⟩
    refine ⟨⟨n, d⟩, ⟨readN, readD⟩, ⟨nonzero, exact ▸ product.le_hi⟩, ?_⟩
    rw [quotient, Int.tdiv_eq_ediv_of_nonneg product.nonneg, exact]
    rfl
  · rintro ⟨⟨n, d⟩, ⟨readN, readD⟩, ⟨nonzero, fits⟩, quotient⟩
    have product := Int.mul_nonneg amount.nonneg n.nonneg
    refine ⟨n, readN, ⟨amount.val * n.val, product, fits⟩, rfl, d, readD, nonzero, ?_⟩
    rw [quotient, Int.tdiv_eq_ediv_of_nonneg product]
    rfl

/-- Plain terms are read as they are. -/
theorem reads_plain {r p : Ratio U128} : ((r.map .plain).map Term.toValue).Reads p ↔ p = r := by
  obtain ⟨n, d⟩ := r
  obtain ⟨n', d'⟩ := p
  have same : ∀ c c' : U128, Checked.of .u128 (.int c.val) = .ok c' ↔ c' = c := fun c c' =>
    Checked.of_int_eq_ok.trans Checked.ext_iff.symm
  simp only [Reads, map, Term.toValue, same, Ratio.mk.injEq]

theorem share_plain_eq_ok {r : Ratio U128} {amount c : U128} :
    (r.map .plain).share amount = .ok c ↔ r.Takes amount.val ∧ c.val = r.floor amount.val := by
  simp only [share, take_eq_ok, reads_plain, exists_eq_left]

/-- A share that can be taken is an amount. -/
theorem exists_floor {r : Ratio U128} {amount : U128} (takes : r.Takes amount.val) :
    ∃ c : U128, c.val = r.floor amount.val :=
  Checked.exists_val.mpr ⟨r.floor_nonneg amount.nonneg, r.floor_le amount.nonneg takes⟩

/-- A ratio of zero takes nothing, and never fails. -/
theorem share_of_zero {r : Ratio Term} {p : Ratio U128} (reads : (r.map Term.toValue).Reads p)
    (zero : p.numerator.val = 0) (nonzero : 1 ≤ p.denominator.val) (amount : U128) :
    r.share amount = .ok .zero := by
  refine take_eq_ok.mpr ⟨p, reads, ⟨by omega, ?_⟩, ?_⟩
  · rw [zero, Int.mul_zero]
    exact Width.u128.hi_nonneg
  · rw [floor, zero, Int.mul_zero, Int.zero_ediv]
    rfl

theorem share_failsOnly {faults : Error → Prop} (arithmetic : ∀ fault, faults (.arithmetic fault))
    {r : Ratio Term} (reads : ∀ t ∈ r.terms, t.ReadsOnly faults) (amount : U128) :
    FailsOnly faults (r.share amount) := by
  obtain ⟨numerator, denominator⟩ := List.forall_mem_cons.mp reads
  refine numerator.of.bind fun n => ?_
  refine (Checked.ofResult_failsOnly arithmetic _ _).bind fun product => ?_
  have taken := (List.forall_mem_singleton.mp denominator).of
  exact taken.bind fun d => Checked.div_failsOnly arithmetic _ _

end Ratio

namespace FeeSchedule

theorem grossFee_eq_ok {s : Schedule} {x : Value} {fee : U128} :
    s.grossFee x = .ok fee ↔ ∃ amount, Checked.of .u128 x = .ok amount ∧
      s.fee.share amount = .ok fee := by
  simp only [grossFee, bind_eq_ok]

theorem grossFee_plain_eq_ok {s : FeeSchedule U128} {n : Int} {fee : U128} :
    (s.map .plain).grossFee (.int n) = .ok fee ↔
      Width.u128.Holds n ∧ s.fee.Takes n ∧ fee.val = s.fee.floor n := by
  have plain : (s.map Term.plain).fee = s.fee.map Term.plain := rfl
  rw [grossFee_eq_ok, plain]
  simp only [Ratio.share_plain_eq_ok]
  constructor
  · rintro ⟨amount, taken, takes, value⟩
    obtain rfl := Checked.of_int_eq_ok.mp taken
    exact ⟨⟨amount.lo_le, amount.le_hi⟩, takes, value⟩
  · rintro ⟨held, takes, value⟩
    obtain ⟨amount, rfl⟩ := Checked.exists_val.mpr held
    exact ⟨amount, Checked.of_val amount, takes, value⟩

/-- The fee ratio of an amount, rounded down, in the integers that the values stand for. -/
def Grosses (s : Schedule) (x : Value) (fee : Int) : Prop :=
  ∃ amount numerator denominator : Int, x.toInteger = .ok amount ∧
    s.fee.numerator.toValue.toInteger = .ok numerator ∧
    s.fee.denominator.toValue.toInteger = .ok denominator ∧
    0 < denominator ∧ fee = amount * numerator / denominator

theorem grosses_of_grossFee {s : Schedule} {x : Value} {fee : U128}
    (gross : s.grossFee x = .ok fee) : s.Grosses x fee.val := by
  obtain ⟨amount, taken, shared⟩ := grossFee_eq_ok.mp gross
  obtain ⟨⟨n, d⟩, ⟨readN, readD⟩, ⟨nonzero, _⟩, value⟩ := Ratio.take_eq_ok.mp shared
  have positive : 0 < d.val := by
    have := d.nonneg
    dsimp only at nonzero
    omega
  exact ⟨amount.val, n.val, d.val, Checked.toInteger_of taken, Checked.toInteger_of readN,
    Checked.toInteger_of readD, positive, value⟩

theorem grossFee_failsOnly {faults : Error → Prop}
    (arithmetic : ∀ fault, faults (.arithmetic fault)) {s : Schedule}
    (reads : ∀ t ∈ s.fee.terms, t.ReadsOnly faults) {x : Value} (amount : x.ReadsOnly faults) :
    FailsOnly faults (s.grossFee x) :=
  (amount _).bind fun _ => Ratio.share_failsOnly arithmetic reads _

theorem grossFee_of_long (s : Schedule) {n : Int} (long : ¬ Text.IsShort n) :
    s.grossFee (.int n) = .error .longInteger :=
  bind_eq_error.mpr (.inl (Checked.ofInt_of_long long))

end FeeSchedule

namespace ReferralTerms

/-- The referrer's share of `n` if there is a referral. -/
def rewardIf (t : ReferralTerms U128) (referred : Bool) (n : Int) : Int :=
  if referred then t.referrerReward.floor n else 0

/-- The discount on `n` if there is a referral. -/
def discountIf (t : ReferralTerms U128) (referred : Bool) (n : Int) : Int :=
  if referred then t.refereeDiscount.floor n else 0

/-- The guards of both shares if there is a referral. -/
def TakesIf (t : ReferralTerms U128) (referred : Bool) (n : Int) : Prop :=
  referred = true → t.referrerReward.Takes n ∧ t.refereeDiscount.Takes n

theorem rewardIf_nonneg (t : ReferralTerms U128) (referred : Bool) {n : Int} (h : 0 ≤ n) :
    0 ≤ t.rewardIf referred n := by
  cases referred
  · exact Int.le_refl 0
  · exact t.referrerReward.floor_nonneg h

theorem discountIf_nonneg (t : ReferralTerms U128) (referred : Bool) {n : Int} (h : 0 ≤ n) :
    0 ≤ t.discountIf referred n := by
  cases referred
  · exact Int.le_refl 0
  · exact t.refereeDiscount.floor_nonneg h

theorem sharesIf_plain_eq_ok {t : ReferralTerms U128} {referred : Bool} {fee : U128}
    {p : ReferralShares} :
    (t.map .plain).sharesIf referred fee = .ok p ↔ t.TakesIf referred fee.val ∧
      p.referrerReward.val = t.rewardIf referred fee.val ∧
      p.refereeDiscount.val = t.discountIf referred fee.val := by
  obtain ⟨reward, discount⟩ := p
  cases referred with
  | false =>
    simp [sharesIf, TakesIf, rewardIf, discountIf, Checked.ext_iff, eq_comm]
  | true =>
    have plain : (t.map .plain).sharesIf true fee = (do
        let reward ← (t.referrerReward.map .plain).share fee
        let discount ← (t.refereeDiscount.map .plain).share fee
        return ⟨reward, discount⟩) := rfl
    rw [plain]
    simp only [bind_eq_ok, pure_eq_ok, Ratio.share_plain_eq_ok, ReferralShares.mk.injEq,
      TakesIf, rewardIf, discountIf, if_true, true_imp_iff]
    constructor
    · rintro ⟨_, ⟨takesReward, rewardVal⟩, _, ⟨takesDiscount, discountVal⟩, rfl, rfl⟩
      exact ⟨⟨takesReward, takesDiscount⟩, rewardVal, discountVal⟩
    · rintro ⟨⟨takesReward, takesDiscount⟩, rewardVal, discountVal⟩
      exact ⟨_, ⟨takesReward, rewardVal⟩, _, ⟨takesDiscount, discountVal⟩, rfl, rfl⟩

theorem exists_shares {t : ReferralTerms U128} {referred : Bool} {fee : U128}
    (takes : t.TakesIf referred fee.val) : ∃ p, (t.map .plain).sharesIf referred fee = .ok p := by
  cases referred with
  | false => exact ⟨_, rfl⟩
  | true =>
    obtain ⟨reward, rewardVal⟩ := Ratio.exists_floor (takes rfl).1
    obtain ⟨discount, discountVal⟩ := Ratio.exists_floor (takes rfl).2
    exact ⟨⟨reward, discount⟩, sharesIf_plain_eq_ok.mpr ⟨takes, rewardVal, discountVal⟩⟩

theorem sharesIf_failsOnly {faults : Error → Prop}
    (arithmetic : ∀ fault, faults (.arithmetic fault)) {t : ReferralTerms Term}
    (reads : ∀ x ∈ t.terms, x.ReadsOnly faults) (referred : Bool) (fee : U128) :
    FailsOnly faults (t.sharesIf referred fee) := by
  obtain ⟨referrer, referee⟩ := List.forall_mem_append.mp reads
  cases referred with
  | false => exact .ok _
  | true =>
    refine (Ratio.share_failsOnly arithmetic referrer _).bind fun reward => ?_
    exact (Ratio.share_failsOnly arithmetic referee _).bind fun discount => .ok _

end ReferralTerms
end ExchangeFees

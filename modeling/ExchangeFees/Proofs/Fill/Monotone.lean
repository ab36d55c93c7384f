import ExchangeFees.Proofs.Fill.Amm
import ExchangeFees.Proofs.Fill.Venue
import ExchangeFees.Proofs.Share.Growth

/-! The user's fee grows with what is traded. On a gross fee and on the larger of two amounts this
is the growth of a floored share; net of a discount it is the growth of what a share leaves, for a
discount of any size. Schedules are arbitrary, and so are all values but those traded, which stand
for integers in whatever way. -/
namespace ExchangeFees

namespace Ratio

/-- The terms of a ratio are read in one way. -/
theorem Reads.unique {r : Ratio Value} {p q : Ratio U128} (reads : r.Reads p) (again : r.Reads q) :
    p = q := by
  obtain ⟨n, d⟩ := p
  obtain ⟨n', d'⟩ := q
  obtain rfl : n = n' := Except.ok.inj (reads.1.symm.trans again.1)
  obtain rfl : d = d' := Except.ok.inj (reads.2.symm.trans again.2)
  rfl

variable {r : Ratio Term} {a b c d : U128}

theorem share_mono (lesser : r.share a = .ok c) (greater : r.share b = .ok d)
    (le : a.val ≤ b.val) : c.val ≤ d.val := by
  obtain ⟨p, reads, _, value⟩ := take_eq_ok.mp lesser
  obtain ⟨q, again, _, value'⟩ := take_eq_ok.mp greater
  obtain rfl := reads.unique again
  rw [value, value']
  exact p.floor_mono le

/-- What a share leaves of a greater amount, if it leaves anything, is no less. -/
theorem sub_share_mono (lesser : r.share a = .ok c) (greater : r.share b = .ok d)
    (le : a.val ≤ b.val) (covered : d.val ≤ b.val) : a.val - c.val ≤ b.val - d.val := by
  obtain ⟨p, reads, takes, value⟩ := take_eq_ok.mp lesser
  obtain ⟨q, again, _, value'⟩ := take_eq_ok.mp greater
  obtain rfl := reads.unique again
  rw [value'] at covered
  rw [value, value']
  exact sub_floor_mono takes.1 a.nonneg le covered

end Ratio

/-- A gross fee grows with the integer that is traded. -/
theorem FeeSchedule.grossFee_mono {s : Schedule} {x₁ x₂ : Value} {n₁ n₂ : Int} {fee₁ fee₂ : U128}
    (stands₁ : x₁.toInteger = .ok n₁) (stands₂ : x₂.toInteger = .ok n₂) (le : n₁ ≤ n₂)
    (gross₁ : s.grossFee x₁ = .ok fee₁) (gross₂ : s.grossFee x₂ = .ok fee₂) :
    fee₁.val ≤ fee₂.val := by
  obtain ⟨amount₁, taken₁, share₁⟩ := grossFee_eq_ok.mp gross₁
  obtain ⟨amount₂, taken₂, share₂⟩ := grossFee_eq_ok.mp gross₂
  obtain rfl := Except.ok.inj (stands₁.symm.trans (Checked.toInteger_of taken₁))
  obtain rfl := Except.ok.inj (stands₂.symm.trans (Checked.toInteger_of taken₂))
  exact Ratio.share_mono share₁ share₂ le

/-- Net of the discount, if there is one, a fee grows with the gross fee. -/
theorem ReferralTerms.sub_discount_mono {t : ReferralTerms Term} {referred : Bool}
    {fee₁ fee₂ : U128} {shares₁ shares₂ : ReferralShares}
    (referral₁ : t.sharesIf referred fee₁ = .ok shares₁)
    (referral₂ : t.sharesIf referred fee₂ = .ok shares₂) (le : fee₁.val ≤ fee₂.val)
    (covered : shares₂.refereeDiscount.val ≤ fee₂.val) :
    fee₁.val - shares₁.refereeDiscount.val ≤ fee₂.val - shares₂.refereeDiscount.val := by
  cases referred with
  | false =>
    obtain rfl := Except.ok.inj referral₁
    obtain rfl := Except.ok.inj referral₂
    simpa using le
  | true =>
    simp only [sharesIf, if_true, shares, bind_eq_ok, pure_eq_ok] at referral₁ referral₂
    obtain ⟨_, _, discount₁, share₁, rfl⟩ := referral₁
    obtain ⟨_, _, discount₂, share₂, rfl⟩ := referral₂
    exact Ratio.sub_share_mono share₁ share₂ le covered

/-- Of two fills that differ in what is traded and return, the one that trades more charges the user
no less: against the market's own maker in either mode, between two orders, and on an outside
venue. -/
theorem FeeSchedule.userFee_grows_with_quote (s : Schedule) (x₁ x₂ : Value) {n₁ n₂ : Int}
    (stands₁ : x₁.toInteger = .ok n₁) (stands₂ : x₂.toInteger = .ok n₂) (le : n₁ ≤ n₂) :
    (∀ (f : AmmFill) b₁ b₂, ({ f with quoteAmount := x₁ }.fees s).result = .ok b₁ →
      ({ f with quoteAmount := x₂ }.fees s).result = .ok b₂ →
        b₁.userFee.val ≤ b₂.userFee.val) ∧
    (∀ (f : MatchedFill) b₁ b₂, ({ f with quoteAmount := x₁ }.fees s).result = .ok b₁ →
      ({ f with quoteAmount := x₂ }.fees s).result = .ok b₂ →
        b₁.userFee.val ≤ b₂.userFee.val) ∧
    ∀ (f : VenueFill) b₁ b₂, ({ f with quoteAmount := x₁ }.fees s).result = .ok b₁ →
      ({ f with quoteAmount := x₂ }.fees s).result = .ok b₂ →
        b₁.userFee.val ≤ b₂.userFee.val := by
  refine ⟨?amm, ?matched, ?venue⟩
  case amm =>
    intro f b₁ b₂ returned₁ returned₂
    obtain ⟨_, fee₁, _, ⟨_, d₁⟩ | ⟨taker, d₁⟩⟩ := AmmFill.fees_eq_ok.mp returned₁
    · rw [d₁.userFee]
      exact b₂.userFee.nonneg
    · obtain ⟨_, fee₂, _, ⟨resting, _⟩ | ⟨_, d₂⟩⟩ := AmmFill.fees_eq_ok.mp returned₂
      · cases taker.symm.trans resting
      · have gross := grossFee_mono stands₁ stands₂ le d₁.gross d₂.gross
        have covered := Int.sub_nonneg.mp (d₂.userFee ▸ b₂.userFee.nonneg)
        rw [d₁.userFee, d₂.userFee]
        exact ReferralTerms.sub_discount_mono d₁.referral d₂.referral gross covered
  case matched =>
    intro f b₁ b₂ returned₁ returned₂
    obtain ⟨fee₁, d₁⟩ := MatchedFill.fees_eq_ok.mp returned₁
    obtain ⟨fee₂, d₂⟩ := MatchedFill.fees_eq_ok.mp returned₂
    have gross := grossFee_mono stands₁ stands₂ le d₁.gross d₂.gross
    have covered := Int.sub_nonneg.mp (d₂.userFee ▸ b₂.userFee.nonneg)
    rw [d₁.userFee, d₂.userFee]
    exact ReferralTerms.sub_discount_mono d₁.referral d₂.referral gross covered
  case venue =>
    intro f b₁ b₂ returned₁ returned₂
    obtain ⟨fee₁, venueFee₁, rebate₁, pool₁, d₁⟩ := VenueFill.fees_eq_ok.mp returned₁
    obtain ⟨fee₂, venueFee₂, rebate₂, pool₂, d₂⟩ := VenueFill.fees_eq_ok.mp returned₂
    have gross := grossFee_mono stands₁ stands₂ le d₁.gross d₂.gross
    obtain rfl := Except.ok.inj (d₁.readVenueFee.symm.trans d₂.readVenueFee)
    obtain rfl := Except.ok.inj (d₁.readRebate.symm.trans d₂.readRebate)
    rw [d₁.userFee, d₂.userFee]
    omega

/-- A discount of a third grows from nothing to one between fees of two and five, and the net fee
from two to four. One of three halves leaves nothing of a fee of one, as of no fee. -/
theorem FeeSchedule.discounts_below_and_above_one :
    let f := MatchedTrade.fill ⟨0, 0, 0, false, true⟩
    let s (discount : Ratio U128) := FeeSchedule.map Term.plain
      ⟨⟨.one, .one⟩, ⟨.zero, .one⟩, ⟨⟨.zero, .one⟩, discount⟩, .standard⟩
    let third := s ⟨.one, ⟨3, by decide, by decide⟩⟩
    let threeHalves := s ⟨⟨3, by decide, by decide⟩, ⟨2, by decide, by decide⟩⟩
    (∃ b₁ b₂, ({ f with quoteAmount := .int 2 }.fees third).result = .ok b₁ ∧
      ({ f with quoteAmount := .int 5 }.fees third).result = .ok b₂ ∧
      b₁.userFee.val = 2 ∧ b₂.userFee.val = 4 ∧ b₁.userFee.val ≤ b₂.userFee.val) ∧
    ∃ b₁ b₂, ({ f with quoteAmount := .int 0 }.fees threeHalves).result = .ok b₁ ∧
      ({ f with quoteAmount := .int 1 }.fees threeHalves).result = .ok b₂ ∧
      b₂.refereeDiscount.val = 1 ∧ b₁.userFee.val ≤ b₂.userFee.val := by
  intro f s third threeHalves
  constructor
  · exact ⟨_, _, rfl, rfl, rfl, rfl, (userFee_grows_with_quote third (.int 2) (.int 5)
      rfl rfl (by decide)).2.1 f _ _ rfl rfl⟩
  · exact ⟨_, _, rfl, rfl, rfl, (userFee_grows_with_quote threeHalves (.int 0) (.int 1)
      rfl rfl (by decide)).2.1 f _ _ rfl rfl⟩

end ExchangeFees

import ExchangeFees.Fill.Amm
import ExchangeFees.Fill.Matched
import ExchangeFees.Fill.Venue
import ExchangeFees.Proofs.Terms
import Mathlib.Data.List.Forall2

/-! What a fill reads of its inputs. Two values are read alike by a width that takes both for the
same value or refuses both by the same error. Fills that read alike whatever they use end alike and
write the same lines, so what they do not use has no influence on them: it may be out of range, of
any kind, or a ratio that cannot be taken. -/
namespace ExchangeFees

/-- A width takes both values for the same one, or refuses both by the same error. -/
structure Value.ReadAlike (w : Width) (x y : Value) : Prop where
  of : Checked.of w x = Checked.of w y

/-- Two terms that are taken alike for an amount and as the operand of one. -/
structure Term.ReadAlike (x y : Term) : Prop where
  of : Checked.of .u128 x.toValue = Checked.of .u128 y.toValue
  operand : Checked.operand .u128 x.toValue = Checked.operand .u128 y.toValue

theorem Value.ReadAlike.refl {w : Width} (x : Value) : ReadAlike w x x := ⟨rfl⟩

theorem Term.ReadAlike.refl (x : Term) : ReadAlike x x := ⟨rfl, rfl⟩

theorem Term.ReadAlike.refl_all (xs : List Term) : List.Forall₂ ReadAlike xs xs :=
  List.forall₂_same.mpr fun x _ => refl x

section Terms

variable {α β : Type} {R : α → β → Prop}

theorem Ratio.forall₂_terms {p : Ratio α} {q : Ratio β} :
    List.Forall₂ R p.terms q.terms ↔
      R p.numerator q.numerator ∧ R p.denominator q.denominator := by
  simp [terms]

theorem ReferralTerms.forall₂_terms {t : ReferralTerms α} {u : ReferralTerms β} :
    List.Forall₂ R t.terms u.terms ↔
      List.Forall₂ R t.referrerReward.terms u.referrerReward.terms ∧
        List.Forall₂ R t.refereeDiscount.terms u.refereeDiscount.terms := by
  simp [terms, Ratio.terms, and_assoc]

theorem FillerTerms.forall₂_terms {t : FillerTerms α} {u : FillerTerms β} :
    List.Forall₂ R t.terms u.terms ↔
      List.Forall₂ R t.reward.terms u.reward.terms ∧ R t.lowerBound u.lowerBound := by
  simp [terms, Ratio.terms, and_assoc]

theorem FeeSchedule.forall₂_terms {s : FeeSchedule α} {t : FeeSchedule β} :
    List.Forall₂ R s.terms t.terms ↔
      List.Forall₂ R s.fee.terms t.fee.terms ∧
        List.Forall₂ R s.makerRebate.terms t.makerRebate.terms ∧
        List.Forall₂ R s.referral.terms t.referral.terms ∧
        List.Forall₂ R s.filler.terms t.filler.terms := by
  simp [terms, ReferralTerms.terms, FillerTerms.terms, Ratio.terms, and_assoc]

end Terms

theorem Ratio.share_congr {p q : Ratio Term}
    (alike : List.Forall₂ Term.ReadAlike p.terms q.terms) (amount : U128) :
    p.share amount = q.share amount := by
  obtain ⟨numerator, denominator⟩ := Ratio.forall₂_terms.mp alike
  simp only [share, take, map, numerator.of, denominator.of]

namespace ReferralTerms

variable {t u : ReferralTerms Term}

theorem shares_congr (alike : List.Forall₂ Term.ReadAlike t.terms u.terms) (fee : U128) :
    t.shares fee = u.shares fee := by
  obtain ⟨reward, discount⟩ := forall₂_terms.mp alike
  simp only [shares, Ratio.share_congr reward, Ratio.share_congr discount]

theorem sharesIf_congr {referred : Bool}
    (alike : referred = true → List.Forall₂ Term.ReadAlike t.terms u.terms) (fee : U128) :
    t.sharesIf referred fee = u.sharesIf referred fee := by
  cases referred with
  | false => rfl
  | true => exact shares_congr (alike rfl) fee

end ReferralTerms

namespace FillerTerms

/-- What a filler's reward reads besides the fee is read alike. -/
structure ReadAlike (t u : FillerTerms Term) (orderTs orderTs' now now' : Value) : Prop where
  terms : List.Forall₂ Term.ReadAlike t.terms u.terms
  orderTs : Value.ReadAlike .i64 orderTs orderTs'
  now : Value.ReadAlike .i64 now now'

theorem ReadAlike.refl (t : FillerTerms Term) (orderTs now : Value) :
    t.ReadAlike t orderTs orderTs now now :=
  ⟨Term.ReadAlike.refl_all _, .refl _, .refl _⟩

variable {t u : FillerTerms Term} {orderTs orderTs' now now' : Value}

theorem payout_congr (alike : t.ReadAlike u orderTs orderTs' now now') (fee : U128) :
    t.payout fee orderTs now = u.payout fee orderTs' now' := by
  obtain ⟨reward, bound⟩ := forall₂_terms.mp alike.terms
  simp only [payout, sizeReward, timeReward, Ratio.share_congr reward, bound.operand,
    alike.orderTs.of, alike.now.of]

theorem payoutIf_congr {wanted : Bool}
    (alike : wanted = true → t.ReadAlike u orderTs orderTs' now now') (fee : U128) :
    t.payoutIf wanted fee orderTs now = u.payoutIf wanted fee orderTs' now' := by
  cases wanted with
  | false => simp only [payoutIf, Bool.false_eq_true, if_false]
  | true => exact payout_congr (alike rfl) fee

theorem payoutWithin_congr {wanted : Bool}
    (alike : wanted = true → t.ReadAlike u orderTs orderTs' now now') (userFee taken pool : U128) :
    t.payoutWithin wanted userFee taken pool orderTs now =
      u.payoutWithin wanted userFee taken pool orderTs' now' := by
  cases wanted with
  | false => simp only [payoutWithin, Bool.false_eq_true, if_false]
  | true => simp only [payoutWithin, payout_congr (alike rfl)]

end FillerTerms

theorem FeeSchedule.grossFee_congr {s t : Schedule} {quoteAmount quoteAmount' : Value}
    (terms : List.Forall₂ Term.ReadAlike s.fee.terms t.fee.terms)
    (amount : Value.ReadAlike .u128 quoteAmount quoteAmount') :
    s.grossFee quoteAmount = t.grossFee quoteAmount' := by
  simp only [grossFee, Ratio.share_congr terms, amount.of]

/-- What a taker's fill reads of its order and of the schedule besides the filler's reward is read
alike: the gross fee's inputs and, if there is a referral, its section. -/
structure FeeSchedule.ReadAlike (s t : Schedule) (quoteAmount quoteAmount' : Value)
    (referred : Bool) : Prop where
  fee : List.Forall₂ Term.ReadAlike s.fee.terms t.fee.terms
  quoteAmount : Value.ReadAlike .u128 quoteAmount quoteAmount'
  referral : referred = true → List.Forall₂ Term.ReadAlike s.referral.terms t.referral.terms

theorem FeeSchedule.ReadAlike.of_eq {s t : Schedule} {quoteAmount : Value} {referred : Bool}
    (fee : s.fee = t.fee) (referral : referred = true → s.referral = t.referral) :
    s.ReadAlike t quoteAmount quoteAmount referred :=
  ⟨fee ▸ Term.ReadAlike.refl_all _, .refl _,
    fun wanted => referral wanted ▸ Term.ReadAlike.refl_all _⟩

/-- Two fills by the market's own maker that read alike what they use. The surplus is always read,
the filler's section and the timestamps for a reward only, and all else for a taker only. -/
structure AmmFill.ReadAlike (f g : AmmFill) (s t : Schedule) : Prop where
  postOnly : g.postOnly = f.postOnly
  surplus : Value.ReadAlike .i128 f.surplus g.surplus
  rewardFiller : g.rewardFiller = f.rewardFiller
  filler : f.rewardFiller = true → s.filler.ReadAlike t.filler f.orderTs g.orderTs f.now g.now
  rewardReferrer : f.postOnly = false → g.rewardReferrer = f.rewardReferrer
  taker : f.postOnly = false → s.ReadAlike t f.quoteAmount g.quoteAmount f.rewardReferrer

theorem AmmFill.fees_congr {f g : AmmFill} {s t : Schedule} (alike : f.ReadAlike g s t) :
    f.fees s = g.fees t := by
  have filler := FillerTerms.payoutIf_congr alike.filler
  simp only [fees, alike.surplus.of, alike.postOnly]
  cases mode : f.postOnly with
  | true => simp only [if_true, postOnlyFees, filler, alike.rewardFiller]
  | false =>
    have taker := alike.taker mode
    have gross := FeeSchedule.grossFee_congr taker.fee taker.quoteAmount
    have referral := ReferralTerms.sharesIf_congr taker.referral
    simp only [Bool.false_eq_true, if_false, takerFees, gross, referral, filler,
      alike.rewardFiller, alike.rewardReferrer mode]

/-- Two fills between orders that read alike what they use. -/
structure MatchedFill.ReadAlike (f g : MatchedFill) (s t : Schedule) : Prop where
  taker : s.ReadAlike t f.quoteAmount g.quoteAmount f.rewardReferrer
  rewardReferrer : g.rewardReferrer = f.rewardReferrer
  makerRebate : List.Forall₂ Term.ReadAlike s.makerRebate.terms t.makerRebate.terms
  rewardFiller : g.rewardFiller = f.rewardFiller
  filler : f.rewardFiller = true → s.filler.ReadAlike t.filler f.orderTs g.orderTs f.now g.now

theorem MatchedFill.fees_congr {f g : MatchedFill} {s t : Schedule} (alike : f.ReadAlike g s t) :
    f.fees s = g.fees t := by
  have gross := FeeSchedule.grossFee_congr alike.taker.fee alike.taker.quoteAmount
  have referral := ReferralTerms.sharesIf_congr alike.taker.referral
  have filler := FillerTerms.payoutIf_congr alike.filler
  simp only [fees, gross, Ratio.share_congr alike.makerRebate, referral, filler,
    alike.rewardReferrer, alike.rewardFiller]

/-- Two fills on a venue that read alike what they use. No such fill has a referral. -/
structure VenueFill.ReadAlike (f g : VenueFill) (s t : Schedule) : Prop where
  taker : s.ReadAlike t f.quoteAmount g.quoteAmount false
  venueFee : Value.ReadAlike .u128 f.venueFee g.venueFee
  referrerRebate : Value.ReadAlike .u128 f.referrerRebate g.referrerRebate
  feePool : Value.ReadAlike .u128 f.feePool g.feePool
  rewardFiller : g.rewardFiller = f.rewardFiller
  filler : f.rewardFiller = true → s.filler.ReadAlike t.filler f.orderTs g.orderTs f.now g.now

theorem VenueFill.fees_congr {f g : VenueFill} {s t : Schedule} (alike : f.ReadAlike g s t) :
    f.fees s = g.fees t := by
  have gross := FeeSchedule.grossFee_congr alike.taker.fee alike.taker.quoteAmount
  have filler := FillerTerms.payoutWithin_congr alike.filler
  simp only [fees, gross, alike.venueFee.of, alike.referrerRebate.of, alike.feePool.of, filler,
    alike.rewardFiller]

/-- What a fill does not use has no influence on how it ends or on the lines that it writes: after
a resting order the notional, the referral and all of the schedule but the filler's section; for
the market's own maker and on a venue the rebate; without a referral, and so on a venue, the
referral's section; without a reward the timestamps and the filler's section. -/
theorem unused_inputs_have_no_influence :
    (∀ (f : AmmFill) (s : Schedule) quoteAmount rewardReferrer fee makerRebate referral,
      f.postOnly = true →
        AmmFill.fees { f with quoteAmount, rewardReferrer }
          { s with fee, makerRebate, referral } = f.fees s) ∧
    ((∀ (f : AmmFill) (s : Schedule) makerRebate, f.fees { s with makerRebate } = f.fees s) ∧
      ∀ (f : VenueFill) (s : Schedule) makerRebate, f.fees { s with makerRebate } = f.fees s) ∧
    ((∀ (f : AmmFill) (s : Schedule) referral, f.rewardReferrer = false →
        f.fees { s with referral } = f.fees s) ∧
      (∀ (f : MatchedFill) (s : Schedule) referral, f.rewardReferrer = false →
        f.fees { s with referral } = f.fees s) ∧
      ∀ (f : VenueFill) (s : Schedule) referral, f.fees { s with referral } = f.fees s) ∧
    (∀ (f : AmmFill) (s : Schedule) orderTs now filler, f.rewardFiller = false →
      AmmFill.fees { f with orderTs, now } { s with filler } = f.fees s) ∧
    (∀ (f : MatchedFill) (s : Schedule) orderTs now filler, f.rewardFiller = false →
      MatchedFill.fees { f with orderTs, now } { s with filler } = f.fees s) ∧
    ∀ (f : VenueFill) (s : Schedule) orderTs now filler, f.rewardFiller = false →
      VenueFill.fees { f with orderTs, now } { s with filler } = f.fees s := by
  refine ⟨?resting, ⟨?ammRebate, ?venueRebate⟩, ⟨?ammReferral, ?matchedReferral, ?venueReferral⟩,
    ?ammReward, ?matchedReward, ?venueReward⟩
  case resting =>
    intro f s quoteAmount rewardReferrer fee makerRebate referral resting
    have noTaker : f.postOnly ≠ false := ne_false_of_eq_true resting
    exact AmmFill.fees_congr ⟨rfl, .refl _, rfl, fun _ => .refl s.filler _ _,
      fun taker => absurd taker noTaker, fun taker => absurd taker noTaker⟩
  case ammRebate =>
    intro f s makerRebate
    exact AmmFill.fees_congr ⟨rfl, .refl _, rfl, fun _ => .refl s.filler _ _, fun _ => rfl,
      fun _ => .of_eq rfl fun _ => rfl⟩
  case venueRebate =>
    intro f s makerRebate
    exact VenueFill.fees_congr ⟨.of_eq rfl fun _ => rfl, .refl _, .refl _, .refl _, rfl,
      fun _ => .refl s.filler _ _⟩
  case ammReferral =>
    intro f s referral unreferred
    have unread : f.rewardReferrer ≠ true := ne_true_of_eq_false unreferred
    exact AmmFill.fees_congr ⟨rfl, .refl _, rfl, fun _ => .refl s.filler _ _, fun _ => rfl,
      fun _ => .of_eq rfl fun referred => absurd referred unread⟩
  case matchedReferral =>
    intro f s referral unreferred
    have unread : f.rewardReferrer ≠ true := ne_true_of_eq_false unreferred
    exact MatchedFill.fees_congr ⟨.of_eq rfl fun referred => absurd referred unread, rfl,
      Term.ReadAlike.refl_all _, rfl, fun _ => .refl s.filler _ _⟩
  case venueReferral =>
    intro f s referral
    exact VenueFill.fees_congr ⟨.of_eq rfl nofun, .refl _, .refl _, .refl _, rfl,
      fun _ => .refl s.filler _ _⟩
  case ammReward =>
    intro f s orderTs now filler unpaid
    have unread : f.rewardFiller ≠ true := ne_true_of_eq_false unpaid
    exact AmmFill.fees_congr ⟨rfl, .refl _, rfl, fun wanted => absurd wanted unread, fun _ => rfl,
      fun _ => .of_eq rfl fun _ => rfl⟩
  case matchedReward =>
    intro f s orderTs now filler unpaid
    have unread : f.rewardFiller ≠ true := ne_true_of_eq_false unpaid
    exact MatchedFill.fees_congr ⟨.of_eq rfl fun _ => rfl, rfl, Term.ReadAlike.refl_all _, rfl,
      fun wanted => absurd wanted unread⟩
  case venueReward =>
    intro f s orderTs now filler unpaid
    have unread : f.rewardFiller ≠ true := ne_true_of_eq_false unpaid
    exact VenueFill.fees_congr ⟨.of_eq rfl fun _ => rfl, .refl _, .refl _, .refl _, rfl,
      fun wanted => absurd wanted unread⟩

/-- A resting order takes its surplus whatever stands for its notional and under ratios that cannot
be taken, and an order between two that pays neither referrer nor filler is filled whatever stands
for its timestamps. -/
theorem lists_and_zero_ratios_unread :
    let nothing : Ratio Term := ⟨.plain .zero, .plain .zero⟩
    let s : Schedule := FeeSchedule.standard.map .plain
    let resting : AmmFill := ⟨.int 100, .int 0, .int 1, false, false, .int 50, true⟩
    let unpaid : MatchedFill := ⟨.int 100000, .int 0, .int 1, false, false⟩
    (∃ b, (resting.fees s).result = .ok b ∧
      (AmmFill.fees { resting with quoteAmount := .list [], rewardReferrer := true }
        { s with fee := nothing, makerRebate := nothing, referral := ⟨nothing, nothing⟩ }).result =
          .ok b) ∧
    ∃ b, (unpaid.fees s).result = .ok b ∧
      (unpaid.fees { s with referral := ⟨nothing, nothing⟩ }).result = .ok b ∧
      (MatchedFill.fees { unpaid with orderTs := .none, now := .int Width.u64.hi }
        { s with filler := ⟨nothing, .plain .zero⟩ }).result = .ok b := by
  intro nothing s resting unpaid
  obtain ⟨rested, -, ⟨-, unreferred, -⟩, -, unrewarded, -⟩ := unused_inputs_have_no_influence
  have surplus := congrArg Traced.result
    (rested resting s (.list []) true nothing nothing ⟨nothing, nothing⟩ rfl)
  have referral := congrArg Traced.result (unreferred unpaid s ⟨nothing, nothing⟩ rfl)
  have reward := congrArg Traced.result
    (unrewarded unpaid s .none (.int Width.u64.hi) ⟨nothing, .plain .zero⟩ rfl)
  obtain ⟨b, kept⟩ : ∃ b, (resting.fees s).result = .ok b := ⟨_, rfl⟩
  obtain ⟨c, charged⟩ : ∃ c, (unpaid.fees s).result = .ok c := ⟨_, rfl⟩
  exact ⟨⟨b, kept, surplus.trans kept⟩, c, charged, referral.trans charged, reward.trans charged⟩

end ExchangeFees

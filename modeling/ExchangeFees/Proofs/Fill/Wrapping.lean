import ExchangeFees.Proofs.Checked.Results
import ExchangeFees.Proofs.Fill.Influence

/-! Plain integers beside checked ones. A width takes the integers that it holds and its own values
alike, and arithmetic does so with its operands. Callers may therefore wrap any of the scalars in
the width that bounds it and any of a schedule's terms as an amount: every computation of fees,
rewards and shares ends alike and writes the same lines. -/
namespace ExchangeFees

/-- A value as it is, or an integer that a width holds beside the checked integer of that width. -/
inductive Value.Wraps (w : Width) : Value → Value → Prop where
  | kept (x : Value) : Wraps w x x
  | wrapped (n : Checked w) : Wraps w (.int n.val) n.toValue

/-- A term as it is, or a plain integer beside the amount of that value. -/
inductive Term.Wraps : Term → Term → Prop where
  | kept (t : Term) : Wraps t t
  | wrapped (n : U128) : Wraps (.plain n) (.record (.checked .u128 n))

theorem Value.Wraps.readAlike {w : Width} {x y : Value} (wraps : Wraps w x y) :
    ReadAlike w x y := by
  cases wraps with
  | kept => exact .refl x
  | wrapped n => exact ⟨(Checked.of_val n).trans (Checked.of_toValue n).symm⟩

theorem Term.Wraps.readAlike {x y : Term} (wraps : Wraps x y) : ReadAlike x y := by
  cases wraps with
  | kept => exact .refl x
  | wrapped n =>
    exact ⟨(Checked.of_val n).trans (Checked.of_toValue n).symm,
      (Checked.operand_val n).trans (Checked.operand_toValue n).symm⟩

/-- Fills by the market's own maker whose scalars are wrapped or kept, each on its own. -/
structure AmmFill.Wraps (f g : AmmFill) : Prop where
  quoteAmount : Value.Wraps .u128 f.quoteAmount g.quoteAmount
  orderTs : Value.Wraps .i64 f.orderTs g.orderTs
  now : Value.Wraps .i64 f.now g.now
  rewardFiller : g.rewardFiller = f.rewardFiller
  rewardReferrer : g.rewardReferrer = f.rewardReferrer
  surplus : Value.Wraps .i128 f.surplus g.surplus
  postOnly : g.postOnly = f.postOnly

structure MatchedFill.Wraps (f g : MatchedFill) : Prop where
  quoteAmount : Value.Wraps .u128 f.quoteAmount g.quoteAmount
  orderTs : Value.Wraps .i64 f.orderTs g.orderTs
  now : Value.Wraps .i64 f.now g.now
  rewardFiller : g.rewardFiller = f.rewardFiller
  rewardReferrer : g.rewardReferrer = f.rewardReferrer

structure VenueFill.Wraps (f g : VenueFill) : Prop where
  quoteAmount : Value.Wraps .u128 f.quoteAmount g.quoteAmount
  orderTs : Value.Wraps .i64 f.orderTs g.orderTs
  now : Value.Wraps .i64 f.now g.now
  rewardFiller : g.rewardFiller = f.rewardFiller
  venueFee : Value.Wraps .u128 f.venueFee g.venueFee
  referrerRebate : Value.Wraps .u128 f.referrerRebate g.referrerRebate
  feePool : Value.Wraps .u128 f.feePool g.feePool

section ReadAlike

variable {s t : Schedule} (alike : List.Forall₂ Term.ReadAlike s.terms t.terms)

include alike

theorem AmmFill.Wraps.readAlike {f g : AmmFill} (wraps : f.Wraps g) : f.ReadAlike g s t := by
  obtain ⟨fee, -, referral, filler⟩ := FeeSchedule.forall₂_terms.mp alike
  exact ⟨wraps.postOnly, wraps.surplus.readAlike, wraps.rewardFiller,
    fun _ => ⟨filler, wraps.orderTs.readAlike, wraps.now.readAlike⟩,
    fun _ => wraps.rewardReferrer,
    fun _ => ⟨fee, wraps.quoteAmount.readAlike, fun _ => referral⟩⟩

theorem MatchedFill.Wraps.readAlike {f g : MatchedFill} (wraps : f.Wraps g) :
    f.ReadAlike g s t := by
  obtain ⟨fee, rebate, referral, filler⟩ := FeeSchedule.forall₂_terms.mp alike
  exact ⟨⟨fee, wraps.quoteAmount.readAlike, fun _ => referral⟩, wraps.rewardReferrer, rebate,
    wraps.rewardFiller, fun _ => ⟨filler, wraps.orderTs.readAlike, wraps.now.readAlike⟩⟩

theorem VenueFill.Wraps.readAlike {f g : VenueFill} (wraps : f.Wraps g) : f.ReadAlike g s t := by
  obtain ⟨fee, -, referral, filler⟩ := FeeSchedule.forall₂_terms.mp alike
  exact ⟨⟨fee, wraps.quoteAmount.readAlike, fun _ => referral⟩, wraps.venueFee.readAlike,
    wraps.referrerRebate.readAlike, wraps.feePool.readAlike, wraps.rewardFiller,
    fun _ => ⟨filler, wraps.orderTs.readAlike, wraps.now.readAlike⟩⟩

end ReadAlike

theorem FillerTerms.payoutOf_congr {t u : FillerTerms Term}
    {fee fee' orderTs orderTs' now now' : Value}
    (alike : t.ReadAlike u orderTs orderTs' now now') (amount : Value.ReadAlike .u128 fee fee') :
    t.payoutOf fee orderTs now = u.payoutOf fee' orderTs' now' := by
  simp only [payoutOf, amount.of, payout_congr alike]

theorem ReferralTerms.sharesOf_congr {t u : ReferralTerms Term} {fee fee' : Value}
    (alike : List.Forall₂ Term.ReadAlike t.terms u.terms)
    (amount : Value.ReadAlike .u128 fee fee') : t.sharesOf fee = u.sharesOf fee' := by
  simp only [sharesOf, amount.of, shares_congr alike]

/-- However many of the terms of a schedule are wrapped as amounts and of the scalars in their
widths, fills of every kind, the filler's reward, the shares of a referral and the gross fee end
alike, and those that write lines write the same. -/
theorem wrapping_makes_no_difference {s t : Schedule}
    (terms : List.Forall₂ Term.Wraps s.terms t.terms) :
    (∀ f g : AmmFill, f.Wraps g → f.fees s = g.fees t) ∧
    (∀ f g : MatchedFill, f.Wraps g → f.fees s = g.fees t) ∧
    (∀ f g : VenueFill, f.Wraps g → f.fees s = g.fees t) ∧
    (∀ fee fee' orderTs orderTs' now now', Value.Wraps .u128 fee fee' →
      Value.Wraps .i64 orderTs orderTs' → Value.Wraps .i64 now now' →
        s.filler.payoutOf fee orderTs now = t.filler.payoutOf fee' orderTs' now') ∧
    (∀ fee fee', Value.Wraps .u128 fee fee' → s.referral.sharesOf fee = t.referral.sharesOf fee') ∧
    ∀ quoteAmount quoteAmount', Value.Wraps .u128 quoteAmount quoteAmount' →
      s.grossFee quoteAmount = t.grossFee quoteAmount' := by
  have alike := terms.imp fun _ _ wraps => wraps.readAlike
  obtain ⟨fee, -, referral, filler⟩ := FeeSchedule.forall₂_terms.mp alike
  refine ⟨fun f g wraps => AmmFill.fees_congr (wraps.readAlike alike),
    fun f g wraps => MatchedFill.fees_congr (wraps.readAlike alike),
    fun f g wraps => VenueFill.fees_congr (wraps.readAlike alike), ?reward, ?shares, ?gross⟩
  case reward =>
    intro _ _ _ _ _ _ amount orderTs now
    exact FillerTerms.payoutOf_congr ⟨filler, orderTs.readAlike, now.readAlike⟩ amount.readAlike
  case shares =>
    intro _ _ amount
    exact ReferralTerms.sharesOf_congr referral amount.readAlike
  case gross =>
    intro _ _ amount
    exact FeeSchedule.grossFee_congr fee amount.readAlike

/-- A fill on a venue with its notional, a timestamp and the rebate wrapped, under a schedule with
the gross fee's numerator and a denominator of the referral wrapped, gives what the plain one
gives. -/
theorem half_wrapped_fill_agrees :
    let fee : U128 := ⟨10, by decide, by decide⟩
    let discount : U128 := ⟨100, by decide, by decide⟩
    let amount : U128 := ⟨100000, by decide, by decide⟩
    let rebate : U128 := ⟨3, by decide, by decide⟩
    let now : I64 := ⟨1, by decide, by decide⟩
    let s : Schedule := FeeSchedule.standard.map .plain
    let t : Schedule := { s with
      fee.numerator := .record (.checked .u128 fee)
      referral.refereeDiscount.denominator := .record (.checked .u128 discount) }
    let f : VenueFill := ⟨.int 100000, .int 0, .int 1, false, .int 20, .int 3, .int 0⟩
    let g : VenueFill :=
      ⟨amount.toValue, .int 0, now.toValue, false, .int 20, rebate.toValue, .int 0⟩
    (List.Forall₂ Term.Wraps s.terms t.terms ∧ f.Wraps g) ∧
      ∃ b, (f.fees s).result = .ok b ∧ (g.fees t).result = .ok b ∧ b.feePoolDelta.val = 77 := by
  intro fee discount amount rebate now s t f g
  have terms : List.Forall₂ Term.Wraps s.terms t.terms :=
    FeeSchedule.forall₂_terms.mpr ⟨.cons (.wrapped fee) (.cons (.kept _) .nil),
      List.forall₂_same.mpr fun x _ => .kept x,
      ReferralTerms.forall₂_terms.mpr ⟨List.forall₂_same.mpr fun x _ => .kept x,
        .cons (.kept _) (.cons (.wrapped discount) .nil)⟩,
      List.forall₂_same.mpr fun x _ => .kept x⟩
  have wraps : f.Wraps g :=
    ⟨.wrapped amount, .kept _, .wrapped now, rfl, .kept _, .wrapped rebate, .kept _⟩
  have same := congrArg Traced.result ((wrapping_makes_no_difference terms).2.2.1 f g wraps)
  exact ⟨⟨terms, wraps⟩, _, rfl, same.symm.trans rfl, rfl⟩

end ExchangeFees

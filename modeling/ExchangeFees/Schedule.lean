import ExchangeFees.Checked

/-!
Fee schedules: the ratios and the bound that every fee is computed from. What the terms are is a
parameter. A schedule of amounts holds plain integers in the range of an unsigned 128-bit amount,
and a schedule as callers build it holds terms that may also be records. A denominator may be zero;
the ratio then fails when it is taken.
-/
namespace ExchangeFees

structure Ratio (α : Type) where
  numerator : α
  denominator : α
  deriving DecidableEq

/-- The shares of a gross fee that go to the referrer and back to the referred taker. -/
structure ReferralTerms (α : Type) where
  referrerReward : Ratio α
  refereeDiscount : Ratio α
  deriving DecidableEq

/-- The share of a fee that caps a filler's reward, and the reward for an order one tick old. -/
structure FillerTerms (α : Type) where
  reward : Ratio α
  lowerBound : α
  deriving DecidableEq

/-- The terms of every fee: the gross fee, the maker's rebate off it, and the two sections. -/
structure FeeSchedule (α : Type) where
  fee : Ratio α
  makerRebate : Ratio α
  referral : ReferralTerms α
  filler : FillerTerms α
  deriving DecidableEq

section Map

variable {α β : Type}

def Ratio.map (f : α → β) (r : Ratio α) : Ratio β := ⟨f r.numerator, f r.denominator⟩

def ReferralTerms.map (f : α → β) (t : ReferralTerms α) : ReferralTerms β :=
  ⟨t.referrerReward.map f, t.refereeDiscount.map f⟩

def FillerTerms.map (f : α → β) (t : FillerTerms α) : FillerTerms β :=
  ⟨t.reward.map f, f t.lowerBound⟩

def FeeSchedule.map (f : α → β) (s : FeeSchedule α) : FeeSchedule β :=
  ⟨s.fee.map f, s.makerRebate.map f, s.referral.map f, s.filler.map f⟩

end Map

/-- Six decimal places are carried by every amount. -/
def quotePlaces : Nat := 6

def quoteUnit : Nat := 1000000

/-- The standard referral section: five per cent to either side. -/
def ReferralTerms.standard : ReferralTerms U128 :=
  ⟨⟨⟨5, by decide, by decide⟩, ⟨100, by decide, by decide⟩⟩,
    ⟨⟨5, by decide, by decide⟩, ⟨100, by decide, by decide⟩⟩⟩

/-- The standard filler section: a tenth of the fee at most, and a hundredth of a unit at least. -/
def FillerTerms.standard : FillerTerms U128 :=
  ⟨⟨.one, ⟨10, by decide, by decide⟩⟩, ⟨10000, by decide, by decide⟩⟩

/-- The standard schedule: a fee of a thousandth, of which the maker gets six tenths. -/
def FeeSchedule.standard : FeeSchedule U128 :=
  ⟨⟨⟨10, by decide, by decide⟩, ⟨10000, by decide, by decide⟩⟩,
    ⟨⟨6, by decide, by decide⟩, ⟨10, by decide, by decide⟩⟩, .standard, .standard⟩

end ExchangeFees

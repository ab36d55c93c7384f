import ExchangeFees.Proofs.Checked.Results

/-! The terms of a schedule, and how taking them for amounts fails: a plain term never does, a
record does unless it is an amount, and a class always does, by a mismatch of kinds. -/
namespace ExchangeFees

section Terms

variable {α β : Type}

def Ratio.terms (r : Ratio α) : List α := [r.numerator, r.denominator]

def ReferralTerms.terms (t : ReferralTerms α) : List α :=
  t.referrerReward.terms ++ t.refereeDiscount.terms

def FillerTerms.terms (t : FillerTerms α) : List α := t.reward.terms ++ [t.lowerBound]

/-- The eleven terms of a schedule. -/
def FeeSchedule.terms (s : FeeSchedule α) : List α :=
  s.fee.terms ++ s.makerRebate.terms ++ s.referral.terms ++ s.filler.terms

theorem FeeSchedule.terms_map (f : α → β) (s : FeeSchedule α) :
    (s.map f).terms = s.terms.map f := rfl

theorem FeeSchedule.forall_terms {P : α → Prop} {s : FeeSchedule α} :
    (∀ t ∈ s.terms, P t) ↔ (∀ t ∈ s.fee.terms, P t) ∧ (∀ t ∈ s.makerRebate.terms, P t) ∧
      (∀ t ∈ s.referral.terms, P t) ∧ ∀ t ∈ s.filler.terms, P t := by
  simp only [terms, List.forall_mem_append, and_assoc]

end Terms

theorem Term.toValue_inj {t u : Term} : t.toValue = u.toValue ↔ t = u := by
  cases t <;> cases u <;> simp [toValue, Checked.ext_iff]

/-- A term that is a plain integer. -/
def Term.IsPlain (t : Term) : Prop := ∃ n, t = .plain n

/-- How a term fails to be taken for an amount. -/
def Term.Refused (t : Term) (e : Error) : Prop :=
  Checked.of .u128 t.toValue = .error e ∨ Checked.operand .u128 t.toValue = .error e

/-- A term is refused as an amount by a mismatch, and only if it is no plain integer and no
amount. -/
theorem Term.Refused.mismatch {t : Term} {e : Error} (refused : t.Refused e) :
    ¬ t.IsPlain ∧ t.toValue.kind ≠ .checked .u128 ∧ ∃ fault, e = .mismatch fault := by
  cases t with
  | plain n =>
    obtain failed | failed := refused
    · cases (Checked.of_val n).symm.trans failed
    · cases (Checked.operand_val n).symm.trans failed
  | type c =>
    obtain failed | failed := refused
    · exact ⟨nofun, nofun, _, (Except.error.inj failed).symm⟩
    · exact ⟨nofun, nofun, _, (Except.error.inj failed).symm⟩
  | record r =>
    refine ⟨nofun, ?_⟩
    cases r with
    | checked w c =>
      cases w with
      | u128 =>
        obtain failed | failed := refused
        · cases (Checked.of_toValue c).symm.trans failed
        · cases failed
      | u64 | i64 | i128 | base =>
        obtain failed | failed := refused
        · exact ⟨nofun, _, (Except.error.inj failed).symm⟩
        · exact ⟨nofun, _, (Except.error.inj failed).symm⟩
    | schedule | referral | filler | fill | venueFill =>
      obtain failed | failed := refused
      · exact ⟨nofun, _, (Except.error.inj failed).symm⟩
      · exact ⟨nofun, _, (Except.error.inj failed).symm⟩

/-- An integer that is too long to be written. -/
def Value.IsLong (x : Value) : Prop := ∃ n, x = .int n ∧ ¬ Text.IsShort n

/-- A value that fails to be taken into a width in no other way than the given ones. -/
def Value.ReadsOnly (faults : Error → Prop) (x : Value) : Prop :=
  ∀ w, FailsOnly faults (Checked.of w x)

namespace Value

variable {faults : Error → Prop} (arithmetic : ∀ fault, faults (.arithmetic fault))

include arithmetic

theorem readsOnly_int {n : Int} (long : ¬ Text.IsShort n → faults .longInteger) :
    (int n).ReadsOnly faults := fun w => Checked.ofInt_failsOnly arithmetic w long

/-- Any value is taken into a width unless it is out of range or of another kind. -/
theorem readsOnly (mismatch : ∀ fault, faults (.mismatch fault)) (long : faults .longInteger)
    (x : Value) : x.ReadsOnly faults := by
  intro w
  cases x with
  | int n => exact readsOnly_int arithmetic (fun _ => long) w
  | record r =>
    cases r with
    | checked v c =>
      simp only [Checked.of]
      split
      · exact .ok _
      · exact .error (mismatch _)
    | schedule | referral | filler | fill | venueFill => exact .error (mismatch _)
  | none | bool | float | text | list | mapping | type => exact .error (mismatch _)

end Value

/-- A term that fails to be taken for an amount in no other way than the given ones. -/
structure Term.ReadsOnly (faults : Error → Prop) (t : Term) : Prop where
  of : FailsOnly faults (Checked.of .u128 t.toValue)
  operand : FailsOnly faults (Checked.operand .u128 t.toValue)

namespace Term

variable {faults : Error → Prop}

theorem readsOnly_plain (n : U128) : (plain n).ReadsOnly faults := by
  constructor
  · intro e failed
    cases (Checked.of_val n).symm.trans failed
  · intro e failed
    cases (Checked.operand_val n).symm.trans failed

theorem readsOnly_of_isPlain {t : Term} (isPlain : t.IsPlain) : t.ReadsOnly faults := by
  obtain ⟨n, rfl⟩ := isPlain
  exact readsOnly_plain n

theorem readsOnly_refused (t : Term) : t.ReadsOnly t.Refused :=
  ⟨fun _ => .inl, fun _ => .inr⟩

theorem ReadsOnly.mono {wider : Error → Prop} {t : Term} (weaker : ∀ e, faults e → wider e)
    (reads : t.ReadsOnly faults) : t.ReadsOnly wider :=
  ⟨reads.of.mono weaker, reads.operand.mono weaker⟩

theorem readsOnly (mismatch : ∀ fault, faults (.mismatch fault)) (t : Term) :
    t.ReadsOnly faults := by
  refine t.readsOnly_refused.mono fun e refused => ?_
  obtain ⟨_, _, fault, rfl⟩ := refused.mismatch
  exact mismatch fault

theorem readsOnly_map_plain (s : FeeSchedule U128) :
    ∀ t ∈ (s.map Term.plain).terms, t.ReadsOnly faults := by
  rw [FeeSchedule.terms_map]
  intro t member
  obtain ⟨n, _, rfl⟩ := List.mem_map.mp member
  exact readsOnly_plain n

end Term
end ExchangeFees

import ExchangeFees.Filler
import ExchangeFees.Proofs.Share

/-! The filler's reward off plain terms, timestamps and fees, as a partial function of
integers. It is an amount where it is defined, and fails by arithmetic where it is not; off any
terms it fails by arithmetic or as a term fails to be taken for an amount. -/
namespace ExchangeFees

theorem age_failsOnly {faults : Error → Prop} (arithmetic : ∀ fault, faults (.arithmetic fault))
    (orderTs now : I64) : FailsOnly faults (age orderTs now) := by
  refine (Checked.ofResult_failsOnly arithmetic _ _).bind fun ticks => ?_
  exact (Checked.cast_failsOnly arithmetic _ _).bind fun _ => .ok _

namespace FillerTerms

/-- The reward off a fee of plain integers, where it is defined. -/
def reward? (t : FillerTerms U128) (fee orderTs now : Int) : Option Int :=
  ((t.map .plain).payoutOf (.int fee) (.int orderTs) (.int now)).result.toOption.map Checked.val

/-- The reward off a fee if the filler is to have one, and zero otherwise. -/
def rewardIf? (t : FillerTerms U128) (wanted : Bool) (fee orderTs now : Int) : Option Int :=
  if wanted then t.reward? fee orderTs now else some 0

variable {t : FillerTerms U128} {fee r : U128} {orderTs now n : Int} {wanted : Bool}

/-- A reward of integers is the reward off the amount that the fee is. -/
theorem reward?_eq_some :
    t.reward? fee.val orderTs now = some n ↔
      ∃ r, ((t.map .plain).payout fee (.int orderTs) (.int now)).result = .ok r ∧ r.val = n := by
  simp only [reward?, payoutOf, Traced.result_bind, Traced.result_liftM, Checked.of_val]
  simp only [bind, Except.bind]
  cases ((t.map .plain).payout fee (.int orderTs) (.int now)).result with
  | error e => simp [Except.toOption]
  | ok r => simp [Except.toOption]

theorem payout_plain_eq_ok :
    ((t.map .plain).payout fee (.int orderTs) (.int now)).result = .ok r ↔
      t.reward? fee.val orderTs now = some r.val := by
  rw [reward?_eq_some]
  constructor
  · intro paid
    exact ⟨r, paid, rfl⟩
  · rintro ⟨r', paid, same⟩
    rw [paid, Checked.ext same]

theorem payoutIf_plain_eq_ok :
    ((t.map .plain).payoutIf wanted fee (.int orderTs) (.int now)).result = .ok r ↔
      t.rewardIf? wanted fee.val orderTs now = some r.val := by
  cases wanted with
  | false => simp [payoutIf, rewardIf?, Checked.ext_iff]
  | true => exact payout_plain_eq_ok

/-- A reward that is defined is an amount. -/
theorem exists_of_rewardIf? (rewarded : t.rewardIf? wanted fee.val orderTs now = some n) :
    ∃ r : U128, r.val = n := by
  cases wanted with
  | false =>
    obtain rfl := Option.some.inj rewarded
    exact ⟨.zero, rfl⟩
  | true =>
    obtain ⟨r, _, value⟩ := reward?_eq_some.mp rewarded
    exact ⟨r, value⟩

section FailsOnly

variable {faults : Error → Prop} (arithmetic : ∀ fault, faults (.arithmetic fault))
  {t : FillerTerms Term} (reads : ∀ x ∈ t.terms, x.ReadsOnly faults)

include arithmetic reads

theorem timeReward_failsOnly (orderTs now : I64) :
    FailsOnly faults (t.timeReward orderTs now) := by
  obtain ⟨_, bound⟩ := List.forall_mem_append.mp reads
  refine (age_failsOnly arithmetic _ _).bind fun ticks => ?_
  refine (Checked.ofResult_failsOnly arithmetic _ _).bind fun scaled => ?_
  refine (Checked.root_failsOnly arithmetic _ fun low => absurd low (by decide)).bind fun root => ?_
  refine (List.forall_mem_singleton.mp bound).operand.bind fun lowerBound => ?_
  refine (Checked.ofResult_failsOnly arithmetic _ _).bind fun product => ?_
  exact Checked.div_failsOnly arithmetic _ _

theorem payout_failsOnly {orderTs now : Value} (placed : orderTs.ReadsOnly faults)
    (filled : now.ReadsOnly faults) (fee : U128) :
    FailsOnly faults (t.payout fee orderTs now).result := by
  obtain ⟨ratio, _⟩ := List.forall_mem_append.mp reads
  simp only [payout, Traced.result_bind, Traced.result_liftM]
  refine (Ratio.share_failsOnly arithmetic ratio _).bind fun size => ?_
  refine (filled _).bind fun now => ?_
  refine (placed _).bind fun orderTs => ?_
  refine (timeReward_failsOnly arithmetic reads _ _).bind fun time => ?_
  exact (FailsOnly.ok ()).bind fun _ => .ok _

theorem payoutIf_failsOnly {orderTs now : Value} (placed : orderTs.ReadsOnly faults)
    (filled : now.ReadsOnly faults) (wanted : Bool) (fee : U128) :
    FailsOnly faults (t.payoutIf wanted fee orderTs now).result := by
  cases wanted with
  | false => exact .ok _
  | true => exact payout_failsOnly arithmetic reads placed filled fee

end FailsOnly

end FillerTerms
end ExchangeFees

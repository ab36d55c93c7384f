import ExchangeFees.Proofs.Fill.Trade
import ExchangeFees.Proofs.Trace

/-! What computing the fees of a fill writes. A fill of any kind, under any schedule, first writes
the line of the filler's reward, if there is to be one, and last that of the fees; it can fail
before or after the first line but not after the second. So the fees are printed exactly for fills
that return a record, with the amounts of that record. -/
namespace ExchangeFees

/-- The lines on the filler's reward: one if the reward is wanted, or none. -/
inductive RewardLines : Bool → List TraceLine → Prop
  | unwanted : RewardLines false []
  | wanted (fee : U128) (orderTs now : I64) (size time : U128) :
      RewardLines true [.filler fee orderTs now size time]

/-- The lines of a fill that fails, which it does before its reward is traced or after that. -/
inductive Interrupted (wanted : Bool) : List TraceLine → Prop
  | before : Interrupted wanted []
  | after {lines : List TraceLine} (reward : RewardLines wanted lines) : Interrupted wanted lines

theorem RewardLines.length_eq {wanted : Bool} {lines : List TraceLine}
    (reward : RewardLines wanted lines) : lines.length = wanted.toNat := by
  cases reward <;> rfl

theorem RewardLines.topic {wanted : Bool} {lines : List TraceLine}
    (reward : RewardLines wanted lines) : ∀ line ∈ lines, line.topic = .filler := by
  cases reward with
  | unwanted => exact List.forall_mem_nil _
  | wanted => exact List.forall_mem_singleton.mpr rfl

namespace Interrupted

variable {wanted : Bool} {lines : List TraceLine}

theorem length_le (interrupted : Interrupted wanted lines) : lines.length ≤ 1 := by
  cases interrupted with
  | before => exact Nat.zero_le 1
  | after reward => exact reward.length_eq ▸ wanted.toNat_le

theorem topic (interrupted : Interrupted wanted lines) : ∀ line ∈ lines, line.topic = .filler := by
  cases interrupted with
  | before => exact List.forall_mem_nil _
  | after reward => exact reward.topic

theorem filter_fees (interrupted : Interrupted wanted lines) :
    lines.filter (fun line => line.topic = .fees) = [] := by
  refine List.filter_eq_nil_iff.mpr fun line member => ?_
  rw [interrupted.topic line member]
  decide

/-- The texts of such lines are on the reward and not on the fees. -/
theorem marks (interrupted : Interrupted wanted lines) :
    ∀ text ∈ lines.map TraceLine.text, Topic.filler.Marks text ∧ ¬ Topic.fees.Marks text := by
  rw [List.forall_mem_map]
  intro line member
  rw [TraceLine.marks_text, TraceLine.marks_text, interrupted.topic line member]
  decide

end Interrupted

namespace FillerTerms

variable (t : FillerTerms Term)

theorem payout_leaves (fee : U128) (orderTs now : Value) :
    (t.payout fee orderTs now).Leaves [] (fun lines _ => RewardLines true lines)
      (Interrupted true) := by
  refine .step .before fun size => ?_
  refine .step .before fun now => ?_
  refine .step .before fun orderTs => ?_
  refine .step .before fun time => ?_
  exact .log (.pure (.wanted fee orderTs now size time))

theorem payoutIf_leaves (wanted : Bool) (fee : U128) (orderTs now : Value) :
    (t.payoutIf wanted fee orderTs now).Leaves [] (fun lines _ => RewardLines wanted lines)
      (Interrupted wanted) := by
  cases wanted with
  | false => exact .pure .unwanted
  | true => exact t.payout_leaves fee orderTs now

theorem payoutWithin_leaves (wanted : Bool) (userFee taken pool : U128) (orderTs now : Value) :
    (t.payoutWithin wanted userFee taken pool orderTs now).Leaves []
      (fun lines _ => RewardLines wanted lines) (Interrupted wanted) := by
  cases wanted with
  | false => exact .pure .unwanted
  | true =>
    refine .step .before fun excess => ?_
    exact (t.payout_leaves userFee orderTs now).bind fun _ _ reward => .pure reward

end FillerTerms

namespace CommandLine.Fill

/-- Whether the filler is to have a reward. -/
def rewardsFiller : Fill → Bool
  | amm f => f.rewardFiller
  | matched f => f.rewardFiller
  | venue f => f.rewardFiller

/-- The record of a fill and the line on its fees. Where the line names a field of the record, it
shows the amount in that field. -/
inductive ReportedAs : Fill → Record → TraceLine → Prop
  | resting {f : AmmFill} (rested : f.postOnly = true) (surplus : I128) (b : FillBreakdown) :
      ReportedAs (amm f) (.fill b) (.ammPostOnly surplus b.fillerReward b.feeToMarket)
  | taken {f : AmmFill} (taker : f.postOnly = false) (fee : U128) (surplus : I128)
      (b : FillBreakdown) :
      ReportedAs (amm f) (.fill b) (.amm fee b.userFee b.fillerReward b.referrerReward surplus
        b.feeToMarket b.feeToMarketForLp)
  | matched (f : MatchedFill) (fee : U128) (b : FillBreakdown) :
      ReportedAs (matched f) (.fill b) (.matched fee b.userFee b.makerRebate b.fillerReward
        b.referrerReward b.feeToMarket)
  | venue (f : VenueFill) (fee venueFee rebate pool : U128) (b : VenueBreakdown) :
      ReportedAs (venue f) (.venueFill b) (.venue fee b.userFee venueFee rebate pool b.fillerReward
        b.feeToMarket b.feePoolDelta)

/-- The lines of a fill that returns a record: those on the reward, then one on the fees. -/
inductive Settled (f : Fill) : List TraceLine → Record → Prop
  | intro {rewards : List TraceLine} {line : TraceLine} {r : Record}
      (reward : RewardLines f.rewardsFiller rewards) (fees : f.ReportedAs r line) :
      Settled f (rewards ++ [line]) r

end CommandLine.Fill

open CommandLine (Fill)

namespace AmmFill

variable {f : AmmFill} {s : Schedule} {surplus : I128}

theorem postOnlyFees_leaves (rested : f.postOnly = true) :
    (f.postOnlyFees s surplus).Leaves [] (fun lines b => (Fill.amm f).Settled lines (.fill b))
      (Interrupted f.rewardFiller) := by
  refine .step .before fun fee => ?_
  refine (s.filler.payoutIf_leaves _ _ _ _).bind fun rewards filler reward => ?_
  refine .step (.after reward) fun left => ?_
  refine .step (.after reward) fun toMarket => ?_
  exact .log (.pure ⟨reward, .resting rested surplus _⟩)

theorem takerFees_leaves (taker : f.postOnly = false) :
    (f.takerFees s surplus).Leaves [] (fun lines b => (Fill.amm f).Settled lines (.fill b))
      (Interrupted f.rewardFiller) := by
  refine .step .before fun fee => ?_
  refine .step .before fun referral => ?_
  refine .step .before fun userFee => ?_
  refine (s.filler.payoutIf_leaves _ _ _ _).bind fun rewards filler reward => ?_
  refine .step (.after reward) fun left => ?_
  refine .step (.after reward) fun left => ?_
  refine .step (.after reward) fun left => ?_
  refine .step (.after reward) fun toMarket => ?_
  refine .step (.after reward) fun forLp => ?_
  exact .log (.pure ⟨reward, .taken taker fee surplus _⟩)

theorem fees_leaves :
    (f.fees s).Leaves [] (fun lines b => (Fill.amm f).Settled lines (.fill b))
      (Interrupted f.rewardFiller) := by
  refine .step .before fun surplus => ?_
  cases mode : f.postOnly with
  | true => exact postOnlyFees_leaves mode
  | false => exact takerFees_leaves mode

end AmmFill

theorem MatchedFill.fees_leaves {f : MatchedFill} {s : Schedule} :
    (f.fees s).Leaves [] (fun lines b => (Fill.matched f).Settled lines (.fill b))
      (Interrupted f.rewardFiller) := by
  refine .step .before fun fee => ?_
  refine .step .before fun rebate => ?_
  refine .step .before fun referral => ?_
  refine .step .before fun takerFee => ?_
  refine (s.filler.payoutIf_leaves _ _ _ _).bind fun rewards filler reward => ?_
  refine .step (.after reward) fun left => ?_
  refine .step (.after reward) fun left => ?_
  refine .step (.after reward) fun left => ?_
  refine .step (.after reward) fun toMarket => ?_
  exact .log (.pure ⟨reward, .matched f fee _⟩)

theorem VenueFill.fees_leaves {f : VenueFill} {s : Schedule} :
    (f.fees s).Leaves [] (fun lines b => (Fill.venue f).Settled lines (.venueFill b))
      (Interrupted f.rewardFiller) := by
  refine .step .before fun fee => ?_
  refine .step .before fun venueFee => ?_
  refine .step .before fun rebate => ?_
  refine .step .before fun pool => ?_
  refine .step .before fun taken => ?_
  refine (s.filler.payoutWithin_leaves _ _ _ _ _ _).bind fun rewards filler reward => ?_
  refine .step (.after reward) fun left => ?_
  refine .step (.after reward) fun toMarket => ?_
  refine .step (.after reward) fun toMarketSigned => ?_
  refine .step (.after reward) fun rebateSigned => ?_
  refine .step (.after reward) fun poolDelta => ?_
  exact .log (.pure ⟨reward, .venue f fee venueFee rebate pool _⟩)

namespace CommandLine.Fill

variable {f : Fill}

theorem fees_leaves (f : Fill) (s : Schedule) :
    (f.fees s).Leaves [] f.Settled (Interrupted f.rewardsFiller) := by
  cases f with
  | amm f =>
    rw [fees_amm]
    exact AmmFill.fees_leaves.map
  | matched f =>
    rw [fees_matched]
    exact MatchedFill.fees_leaves.map
  | venue f =>
    rw [fees_venue]
    exact VenueFill.fees_leaves.map

theorem Settled.filter_fees {lines : List TraceLine} {r : Record} (settled : f.Settled lines r) :
    ∃ line, lines.filter (fun line => line.topic = .fees) = [line] := by
  cases settled with
  | @intro rewards line _ reward fees =>
    have topic : line.topic = .fees := by cases fees <;> rfl
    have none : rewards.filter (fun line => line.topic = .fees) = [] :=
      Interrupted.filter_fees (.after reward)
    exact ⟨line, by simp [List.filter_append, none, topic]⟩

/-- What is printed of a fill, by how it ends, if everything is printed. A record comes with one
line on the fees, the last, which shows the amounts of the record; in front of it is one line on the
filler's reward, if there is to be one. A failure comes with no line on the fees and at most one on
the reward. -/
structure PrintsAsItEnds (f : Fill) (shown : Printout Record) : Prop where
  fees_once : (shown.linesOn .fees).length = 1 ↔ ∃ r, shown.result = .ok r
  returned : ∀ r, shown.result = .ok r → ∃ rewards line,
    shown.lines = rewards ++ [line.text] ∧ f.ReportedAs r line ∧
      rewards.length = f.rewardsFiller.toNat ∧
        ∀ text ∈ rewards, Topic.filler.Marks text ∧ ¬ Topic.fees.Marks text
  failed : ∀ e, shown.result = .error e →
    shown.lines.length ≤ 1 ∧
      ∀ text ∈ shown.lines, Topic.filler.Marks text ∧ ¬ Topic.fees.Marks text

theorem PrintsAsItEnds.of_leaves {x : Traced Record}
    (leaves : x.Leaves [] f.Settled (Interrupted f.rewardsFiller)) :
    f.PrintsAsItEnds (x.print .on) := by
  have settled : ∀ r, x.result = .ok r → f.Settled x.lines r := leaves.returned
  have interrupted : ∀ e, x.result = .error e → Interrupted f.rewardsFiller x.lines :=
    leaves.failed
  refine ⟨?once, ?returned, ?failed⟩
  case once =>
    rw [Traced.linesOn_print_on, List.length_map]
    change _ ↔ ∃ r, x.result = .ok r
    cases result : x.result with
    | ok r =>
      obtain ⟨line, fees⟩ := (settled r result).filter_fees
      simp [fees]
    | error e => simp [(interrupted e result).filter_fees]
  case returned =>
    intro r returned
    rw [Traced.lines_print_on]
    obtain ⟨lines, result⟩ := x
    cases settled r returned with
    | @intro rewards line _ reward fees =>
      exact ⟨rewards.map TraceLine.text, line, List.map_append, fees,
        (List.length_map _).trans reward.length_eq, Interrupted.marks (.after reward)⟩
  case failed =>
    intro e failed
    rw [Traced.lines_print_on, List.length_map]
    exact ⟨(interrupted e failed).length_le, (interrupted e failed).marks⟩

/-- A rebate of the whole fee leaves nothing for the reward that is already traced. -/
example :
    let whole : Schedule := { Schedule.standard with makerRebate := ⟨.plain .one, .plain .one⟩ }
    ((matched ⟨.int 1000000000, .int 0, .int 1, true, false⟩).fees whole |>.print .on).lines =
      ["[filler] fee=1000000 order_ts=0 now=1 size=100000 time=10000"] := by
  decide +kernel

end CommandLine.Fill
end ExchangeFees

import ExchangeFees.Proofs.Fill.Venue
import ExchangeFees.Proofs.Fill.Matched
import ExchangeFees.Proofs.Session.Run

/-! Failing steps leave no trace in a session: wherever a step fails, the session goes on as if the
step had never been asked for. Some of the failing steps of a run can therefore be erased, and every
other step gives the same answer, leaves the same state and writes the same lines. -/
namespace ExchangeFees.Session

/-- The entries of a list at the positions that are kept. -/
def keep {α : Type} (kept : Nat → Bool) : List α → List α
  | [] => []
  | x :: rest =>
    if kept 0 then x :: keep (fun n => kept (n + 1)) rest else keep (fun n => kept (n + 1)) rest

section Keep

variable {α : Type} {kept : Nat → Bool} {x : α} {rest : List α}

theorem keep_cons_of_kept (first : kept 0 = true) :
    keep kept (x :: rest) = x :: keep (fun n => kept (n + 1)) rest := if_pos first

theorem keep_cons_of_erased (first : kept 0 = false) :
    keep kept (x :: rest) = keep (fun n => kept (n + 1)) rest := by
  rw [keep, first]
  rfl

end Keep

variable {s : Session} {x : Step}

theorem after_of_failed (failed : (s.advance x).answer.isOk = false) :
    (s.advance x).after = s := by
  have effect := effect_advance s x
  generalize (s.advance x).answer = answer, (s.advance x).after = after at effect failed ⊢
  cases effect with
  | failed => rfl
  | paused | replaced | rebuilt | amm | matched | venue => cases failed

/-- Erasing failed steps of a run, whatever they failed by and however many of them, leaves the
outcomes of all other steps and the last state as they were. -/
theorem failed_steps_erasable (s : Session) (steps : List Step) (kept : Nat → Bool)
    (failed : ∀ o ∈ keep (fun n => !kept n) (s.run steps), o.answer.isOk = false) :
    s.run (keep kept steps) = keep kept (s.run steps) ∧
      s.final (keep kept steps) = s.final steps := by
  -- Behind each step the positions that are kept move up by one, so `kept` is not fixed.
  induction steps generalizing s kept with
  | nil => exact ⟨rfl, rfl⟩
  | cons x rest ih =>
    rw [run] at failed ⊢
    cases first : kept 0 with
    | true =>
      rw [keep_cons_of_erased (by rw [first]; rfl)] at failed
      obtain ⟨outcomes, last⟩ := ih _ _ failed
      rw [keep_cons_of_kept first, keep_cons_of_kept first, run, outcomes, final_cons, final_cons,
        last]
      exact ⟨rfl, rfl⟩
    | false =>
      rw [keep_cons_of_kept (by rw [first]; rfl)] at failed
      obtain ⟨here, others⟩ := List.forall_mem_cons.mp failed
      obtain ⟨outcomes, last⟩ := ih _ _ others
      rw [after_of_failed here] at outcomes last ⊢
      rw [keep_cons_of_erased first, keep_cons_of_erased first, final_cons, after_of_failed here]
      exact ⟨outcomes, last⟩

/-- Of a run with a fill that is paused, one whose amount is out of range, one whose amount is a
text, a schedule that is refused and a fill that the market has no room for, all but the third
failure are erased. The last fill draws the one unit of the pool. -/
theorem four_failures_erased :
    let order := MatchedTrade.fill ⟨40000000, 0, 0, false, false⟩
    let steps := [.setPaused (.int 4), .matched order, .setPaused (.int 0),
      .matched { order with quoteAmount := .int (-1) },
      .matched { order with quoteAmount := .text "1" },
      .replace [("fee_numerator", .bool true)], .matched order,
      .venue (VenueTrade.fill ⟨40000000, 0, 0, true, 32000, 8000, 0⟩)]
    let s : Session := ⟨.standard, .one, ⟨Width.i128.hi, by decide, by decide⟩, .int 0⟩
    let kept := fun n => !([1, 3, 5, 6].contains n)
    (s.run steps).map (fun o => (o.answer.isOk, o.after.pool.val)) =
        [(true, 1), (false, 1), (true, 1), (false, 1), (false, 1), (false, 1), (false, 1),
          (true, 0)] ∧
      (∀ o ∈ keep (fun n => !kept n) (s.run steps), o.answer.isOk = false) ∧
      s.run (keep kept steps) = keep kept (s.run steps) ∧
      s.final (keep kept steps) = s.final steps := by
  intro order steps s kept
  have failed : ∀ o ∈ keep (fun n => !kept n) (s.run steps), o.answer.isOk = false := by
    decide +kernel
  exact ⟨by decide +kernel, failed, failed_steps_erasable s steps kept failed⟩

end ExchangeFees.Session

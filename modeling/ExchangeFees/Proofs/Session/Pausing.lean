import ExchangeFees.Proofs.Fill.Amm
import ExchangeFees.Proofs.Fill.Matched
import ExchangeFees.Proofs.Fill.Venue
import ExchangeFees.Proofs.Paused
import ExchangeFees.Proofs.Session.Frame
import Mathlib.Data.List.Forall2

/-! Paused fills in sessions. Two bits of the mask decide whether a fill is refused, before anything
else about it is looked at. A fill that is let through is answered as if nothing were paused, so
that runs whose masks agree in the two bits differ in nothing but the masks. -/
namespace ExchangeFees.Session

/-- The session with nothing paused. -/
def unpaused (s : Session) : Session := s.withMask (.int 0)

/-- A fill by the market's own maker. -/
def Step.againstAmm : Step → Bool
  | amm _ => true
  | _ => false

variable {s t : Session} {x y : Step} {m : Int}

theorem Step.ne_setPaused (fill : x.isFill = true) (mask : Value) : x ≠ .setPaused mask := by
  rintro rfl
  cases fill

section Fills

variable (fill : x.isFill = true) (stands : s.mask.toInteger = .ok m)

include fill stands

theorem guard_of_isFill : s.guard x = Mask.allowFill m x.againstAmm := by
  rw [← allowFill_of_toInteger stands]
  cases x with
  | amm | matched | venue => rfl
  | setPaused | replace | rebuild => cases fill

theorem advance_of_fill_paused (paused : m.testBit 2 = true) :
    s.advance x = ⟨.error (.paused .fill m), s, []⟩ := by
  refine advance_of_guard_error ?_
  rw [guard_of_isFill fill stands, Mask.allowFill_eq, paused]
  rfl

theorem advance_of_ammFills_paused (others : m.testBit 2 = false) (amm : x.againstAmm = true)
    (paused : m.testBit 1 = true) : s.advance x = ⟨.error (.paused .ammFills m), s, []⟩ := by
  refine advance_of_guard_error ?_
  rw [guard_of_isFill fill stands, Mask.allowFill_eq, others, amm, paused]
  rfl

theorem guard_of_not_paused (others : m.testBit 2 = false)
    (amm : (x.againstAmm && m.testBit 1) = false) : s.guard x = .ok () := by
  rw [guard_of_isFill fill stands, Mask.allowFill_eq, others, amm]
  rfl

end Fills

/-- A fill that is let through is answered as with nothing paused. -/
theorem advance_of_guard_ok (fill : x.isFill = true) (allowed : s.guard x = .ok ()) :
    s.advance x = (s.unpaused.advance x).map (·.withMask s.mask) := by
  have allowed' : s.unpaused.guard x = .ok () :=
    guard_of_not_paused (m := 0) fill rfl rfl (Bool.and_false _)
  exact advance_withMask (s := s.unpaused) (Step.ne_setPaused fill) allowed' allowed

/-- A fill that its guard lets through fails by arithmetic, by a mismatch of kinds or by an integer
too long to be written only. -/
theorem answer_failsOnly {faults : Error → Prop} (arithmetic : ∀ fault, faults (.arithmetic fault))
    (mismatch : ∀ fault, faults (.mismatch fault)) (long : faults .longInteger)
    (fill : x.isFill = true)
    (allowed : FailsOnly faults (s.guard x)) : FailsOnly faults (s.advance x).answer := by
  have reads (v : Value) : v.ReadsOnly faults := v.readsOnly arithmetic mismatch long
  have terms : ∀ t ∈ s.schedule.terms, t.ReadsOnly faults := fun t _ => t.readsOnly mismatch
  rw [answer_advance]
  refine FailsOnly.map ?_
  cases x with
  | setPaused | replace | rebuild => cases fill
  | amm f =>
    simp only [step, Traced.result_bind, Traced.result_liftM, Traced.result_pure]
    refine FailsOnly.bind allowed fun _ => ?_
    refine (AmmFill.fees_failsOnly arithmetic terms (reads _) (reads _) (reads _) (reads _)).bind
      fun b => ?_
    exact (Checked.ofResult_failsOnly arithmetic _ _).bind fun market => .ok _
  | matched f =>
    simp only [step, Traced.result_bind, Traced.result_liftM, Traced.result_pure]
    refine FailsOnly.bind allowed fun _ => ?_
    refine (MatchedFill.fees_failsOnly arithmetic terms (reads _) (reads _) (reads _)).bind
      fun b => ?_
    exact (Checked.ofResult_failsOnly arithmetic _ _).bind fun market => .ok _
  | venue f =>
    simp only [step, Traced.result_bind, Traced.result_liftM, Traced.result_pure]
    refine FailsOnly.bind allowed fun _ => ?_
    refine (VenueFill.fees_failsOnly arithmetic terms (reads _) (reads _) (reads _) (reads _)
      (reads _) (reads _)).bind fun b => ?_
    exact (movePool_failsOnly arithmetic _ _).bind fun pool => .ok _

theorem not_paused_of_guard_ok (fill : x.isFill = true) (allowed : s.guard x = .ok ()) :
    FailsOnly Error.NotPaused (s.advance x).answer :=
  answer_failsOnly (fun _ => nofun) (fun _ => nofun) nofun fill (allowed ▸ .ok ())

/-- Sessions that differ in the mask alone, and there not in the bits that pause fills. -/
structure SameButMask (s t : Session) : Prop where
  rest : s.unpaused = t.unpaused
  bits : s.mask.fillBits = t.mask.fillBits

/-- The same step twice, or masks that are set and agree in the bits that pause fills. -/
inductive Step.SameButMask : Step → Step → Prop where
  | setPaused {mask mask'} (bits : mask.fillBits = mask'.fillBits) :
      SameButMask (.setPaused mask) (.setPaused mask')
  | same {x : Step} (keeps : ∀ mask, x ≠ .setPaused mask) : SameButMask x x

/-- What came of a step but for the mask, also where a failure shows it. -/
def Outcome.withoutMask (o : Outcome) : Outcome :=
  ⟨o.answer.mapError Error.withoutMask, o.after.unpaused, o.lines⟩

theorem Outcome.withoutMask_failed (e : Error) (s : Session) (lines : List TraceLine) :
    withoutMask ⟨.error e, s, lines⟩ = ⟨.error e.withoutMask, s.unpaused, lines⟩ := rfl

namespace SameButMask

theorem guard (same : s.SameButMask t) (x : Step) :
    (s.guard x).mapError Error.withoutMask = (t.guard x).mapError Error.withoutMask := by
  cases x with
  | setPaused | replace | rebuild => rfl
  | amm | matched | venue => exact allowFill_withoutMask same.bits _

/-- A step that does not set the mask is refused in both sessions or does the same in both. -/
theorem advance_same (same : s.SameButMask t) (keeps : ∀ mask, x ≠ .setPaused mask) :
    (s.advance x).withoutMask = (t.advance x).withoutMask ∧
      (s.advance x).after.SameButMask (t.advance x).after := by
  obtain ⟨e, e', refused, refused', fault⟩ | ⟨_, allowed, allowed'⟩ :=
    mapError_eq_mapError (same.guard x)
  · rw [advance_of_guard_error refused, advance_of_guard_error refused', Outcome.withoutMask_failed,
      Outcome.withoutMask_failed, same.rest, fault]
    exact ⟨rfl, same⟩
  · have start : t = s.withMask t.mask := congrArg (·.withMask t.mask) same.rest.symm
    rw [start] at allowed'
    have stepped := advance_withMask keeps allowed allowed'
    have kept := (effect_advance s x).same_mask keeps
    rw [← start] at stepped
    rw [stepped]
    exact ⟨rfl, rfl, kept ▸ same.bits⟩

theorem advance (same : s.SameButMask t) (step : x.SameButMask y) :
    (s.advance x).withoutMask = (t.advance y).withoutMask ∧
      (s.advance x).after.SameButMask (t.advance y).after := by
  cases step with
  | setPaused bits => exact ⟨congrArg (Outcome.mk (.ok .done) · []) same.rest, same.rest, bits⟩
  | same keeps => exact same.advance_same keeps

theorem run (same : s.SameButMask t) {steps steps' : List Step}
    (alike : List.Forall₂ Step.SameButMask steps steps') :
    (s.run steps).map Outcome.withoutMask = (t.run steps').map Outcome.withoutMask ∧
      (s.final steps).SameButMask (t.final steps') := by
  induction alike generalizing s t with
  | nil => exact ⟨rfl, same⟩
  | cons first _ ih =>
    obtain ⟨outcome, next⟩ := same.advance first
    obtain ⟨outcomes, last⟩ := ih next
    exact ⟨List.cons_eq_cons.mpr ⟨outcome, outcomes⟩, last⟩

end SameButMask

/-- At any point of a run, with a mask of any size and sign, a fill is refused by the bit of all
fills, and then by the bit of the market's own maker if it is one of those. It names the operation
and changes nothing. Otherwise it is answered as with nothing paused. Runs whose masks agree in the
two bits at every point do the same but for the masks. -/
theorem pauses_gate_fills :
    (∀ (s : Session) (steps : List Step) (m : Int), (s.final steps).mask.toInteger = .ok m →
      ∀ x, x.isFill = true →
        (m.testBit 2 = true →
          (s.final steps).advance x = ⟨.error (.paused .fill m), s.final steps, []⟩) ∧
        (m.testBit 2 = false → x.againstAmm = true → m.testBit 1 = true →
          (s.final steps).advance x = ⟨.error (.paused .ammFills m), s.final steps, []⟩) ∧
        (m.testBit 2 = false → (x.againstAmm && m.testBit 1) = false →
          (s.final steps).advance x =
            ((s.final steps).unpaused.advance x).map (·.withMask (s.final steps).mask) ∧
          ∀ o m', ((s.final steps).advance x).answer ≠ .error (.paused o m'))) ∧
    ∀ (s t : Session) (steps steps' : List Step), s.SameButMask t →
      List.Forall₂ Step.SameButMask steps steps' →
        (s.run steps).map Outcome.withoutMask = (t.run steps').map Outcome.withoutMask ∧
        (s.final steps).unpaused = (t.final steps').unpaused := by
  constructor
  · intro s steps m stands x fill
    refine ⟨advance_of_fill_paused fill stands, advance_of_ammFills_paused fill stands, ?_⟩
    intro others amm
    have allowed := guard_of_not_paused fill stands others amm
    refine ⟨advance_of_guard_ok fill allowed, fun o m' failed => ?_⟩
    exact not_paused_of_guard_ok fill allowed _ failed o m' rfl
  · intro s t steps steps' same alike
    obtain ⟨outcomes, last⟩ := same.run alike
    exact ⟨outcomes, last.rest⟩

/-- Masks of either sign that pause all fills, or those of the market's own maker, or neither, set
at the same points of two runs, in which other bits differ throughout. -/
theorem unrelated_bits_unnoticed :
    let order := Step.matched (MatchedTrade.fill ⟨40000000, 0, 0, true, false⟩)
    let own := Step.amm (AmmTrade.fill ⟨⟨40000000, 0, 0, true, true⟩, -50000, false⟩)
    let refused := Step.matched (MatchedTrade.fill ⟨-1, 0, 0, true, false⟩)
    let s : Session := ⟨.standard, .one, .zero, .int (-6)⟩
    let t : Session := ⟨.standard, .one, .zero, .int 2⟩
    let steps := [own, order, .setPaused (.int 9), own, .setPaused (.int (-4))]
    let steps' := [own, order, .setPaused (.int 0), own, .setPaused (.int 4)]
    s.advance own = ⟨.error (.paused .ammFills (-6)), s, []⟩ ∧
      s.advance order = (s.unpaused.advance order).map (·.withMask (.int (-6))) ∧
      (s.final steps).advance refused = ⟨.error (.paused .fill (-4)), s.final steps, []⟩ ∧
      (s.run steps).map Outcome.withoutMask = (t.run steps').map Outcome.withoutMask ∧
      (s.final steps).unpaused = (t.final steps').unpaused := by
  intro order own refused s t steps steps'
  obtain ⟨gated, unnoticed⟩ := pauses_gate_fills
  have stands : (s.final steps).mask.toInteger = .ok (-4) := by decide +kernel
  obtain ⟨-, blocked, -⟩ := gated s [] (-6) rfl own rfl
  obtain ⟨-, -, through⟩ := gated s [] (-6) rfl order rfl
  obtain ⟨stopped, -, -⟩ := gated s steps (-4) stands refused rfl
  have alike : List.Forall₂ Step.SameButMask steps steps' :=
    .cons (.same nofun) <| .cons (.same nofun) <| .cons (.setPaused rfl) <|
      .cons (.same nofun) <| .cons (.setPaused rfl) .nil
  exact ⟨blocked rfl rfl rfl, (through rfl rfl).1, stopped rfl,
    unnoticed s t steps steps' ⟨rfl, rfl⟩ alike⟩

end ExchangeFees.Session

import ExchangeFees.Proofs.Session.Conservation
import ExchangeFees.Proofs.Session.Frame
import Mathlib.Algebra.BigOperators.Group.List.Basic

/-! Fills in another order. Fills of the market and fills on a venue do not see each other, so that
only the order within each of the two kinds matters. Fills of the market do not even see each other
as long as the market has room for what they give, since what a fill gives does not depend on what
the market holds and sums do not depend on the order. -/
namespace ExchangeFees.Session

variable {s t : Session} {steps reordered : List Step} {x : Step}

theorem replies_withPool (inside : ∀ x ∈ steps, x.onVenue = false) (s : Session) (pool : U128) :
    (s.withPool pool).replies steps = s.replies steps :=
  replies_map (f := (·.withPool pool))
    (fun _ x member => advance_withPool (inside x member) pool) s

theorem replies_withMarket (outside : ∀ x ∈ steps, x.ofMarket = false) (s : Session)
    (market : I128) : (s.withMarket market).replies steps = s.replies steps :=
  replies_map (f := (·.withMarket market))
    (fun _ x member => advance_withMarket (outside x member) market) s

/-- Among fills the replies to a part are those to the part alone, if the part does not notice the
fills outside of it. -/
theorem replies_filter {part : Step → Bool} (fills : ∀ x ∈ steps, x.isFill = true)
    (apart : ∀ (s : Session) x rest, x.isFill = true → part x = false →
      (∀ y ∈ rest, part y = true) → (s.advance x).after.replies rest = s.replies rest)
    (s : Session) :
    (s.replies steps).filter (fun v => part v.1) = s.replies (steps.filter part) := by
  induction steps generalizing s with
  | nil => rfl
  | cons x rest ih =>
    obtain ⟨fill, others⟩ := List.forall_mem_cons.mp fills
    cases member : part x with
    | true => simp only [replies_cons, List.filter_cons, member, if_true, ih others]
    | false =>
      simp only [replies_cons, List.filter_cons, member, Bool.false_eq_true, if_false, ih others]
      exact apart s x _ fill member fun y later => (List.mem_filter.mp later).2

theorem replies_filter_ofMarket (fills : ∀ x ∈ steps, x.isFill = true) (s : Session) :
    (s.replies steps).filter (fun v => v.1.ofMarket) = s.replies (steps.filter Step.ofMarket) := by
  refine replies_filter fills (fun s x rest fill outside market => ?_) s
  obtain ⟨pool, after⟩ := (effect_advance s x).exists_withPool
    (by rw [Step.onVenue_of_isFill fill, outside]; rfl)
  rw [after]
  exact replies_withPool (fun y member => Step.onVenue_of_ofMarket (market y member)) s pool

theorem replies_filter_onVenue (fills : ∀ x ∈ steps, x.isFill = true) (s : Session) :
    (s.replies steps).filter (fun v => v.1.onVenue) = s.replies (steps.filter Step.onVenue) := by
  refine replies_filter fills (fun s x rest fill outside venue => ?_) s
  obtain ⟨market, after⟩ := (effect_advance s x).exists_withMarket
    (by rwa [Step.onVenue_of_isFill fill, Bool.not_eq_false'] at outside)
  rw [after]
  exact replies_withMarket (fun y member => Step.ofMarket_of_onVenue (venue y member)) s market

theorem map_replies {β : Type} (f : Except Error Answer → β) (s : Session) (steps : List Step) :
    ((s.replies steps).map fun v => f v.2) = (s.run steps).map fun o => f o.answer := by
  induction steps generalizing s with
  | nil => rfl
  | cons x rest ih => rw [replies_cons, run, List.map_cons, List.map_cons, ih]

theorem fst_mem_of_mem_replies {v : Step × Except Error Answer} (member : v ∈ s.replies steps) :
    v.1 ∈ steps :=
  (List.of_mem_zip member).1

theorem final_same_terms (fills : ∀ x ∈ steps, x.isFill = true) (s : Session) :
    (s.final steps).schedule = s.schedule ∧ (s.final steps).mask = s.mask := by
  induction steps generalizing s with
  | nil => exact ⟨rfl, rfl⟩
  | cons x rest ih =>
    obtain ⟨fill, others⟩ := List.forall_mem_cons.mp fills
    obtain ⟨schedule, mask⟩ := (effect_advance s x).same_terms fill
    rw [final_cons, ← schedule, ← mask]
    exact ih others _

/-- Fills that are answered alike in another order leave the same session: both balances move by
the sum of what the answers give. -/
theorem final_eq_of_perm (fills : ∀ x ∈ steps, x.isFill = true)
    (fills' : ∀ x ∈ reordered, x.isFill = true)
    (perm : (s.replies reordered).Perm (s.replies steps)) :
    s.final reordered = s.final steps := by
  have sum (given : Except Error Answer → Int) :
      ((s.run reordered).map fun o => given o.answer).sum =
        ((s.run steps).map fun o => given o.answer).sum := by
    rw [← map_replies given, ← map_replies given]
    exact (perm.map fun v => given v.2).sum_eq
  have market : (s.final reordered).market = (s.final steps).market :=
    Checked.ext (by rw [run_market, run_market, sum])
  have pool : (s.final reordered).pool = (s.final steps).pool :=
    Checked.ext (by rw [run_pool, run_pool, sum])
  obtain ⟨schedule, mask⟩ := final_same_terms fills s
  obtain ⟨schedule', mask'⟩ := final_same_terms fills' s
  cases before : s.final steps
  cases after : s.final reordered
  simp only [before, after] at market pool schedule mask schedule' mask'
  rw [market, pool, schedule, mask, schedule', mask']

/-- Replies that agree in either part of the fills agree in all. -/
theorem replies_perm (fills : ∀ x ∈ steps, x.isFill = true)
    (fills' : ∀ x ∈ reordered, x.isFill = true)
    (market : ((s.replies reordered).filter fun v => v.1.ofMarket).Perm
      ((s.replies steps).filter fun v => v.1.ofMarket))
    (venue : ((s.replies reordered).filter fun v => v.1.onVenue) =
      (s.replies steps).filter fun v => v.1.onVenue) :
    (s.replies reordered).Perm (s.replies steps) := by
  have parts {steps : List Step} (fills : ∀ x ∈ steps, x.isFill = true) :
      ((s.replies steps).filter (fun v => v.1.ofMarket) ++
        (s.replies steps).filter fun v => v.1.onVenue).Perm (s.replies steps) := by
    have others : ((s.replies steps).filter fun v => v.1.onVenue) =
        (s.replies steps).filter fun v => !v.1.ofMarket :=
      List.filter_congr fun v member =>
        Step.onVenue_of_isFill (fills v.1 (fst_mem_of_mem_replies member))
    rw [others]
    exact List.filter_append_perm _ _
  refine (parts fills').symm.trans (List.Perm.trans ?_ (parts fills))
  rw [venue]
  exact market.append_right _

/-- The breakdown of a fill of the market, or why there is none, before the market moves. -/
def priced? (s : Session) : Step → Option (Except Error FillBreakdown)
  | .amm f => some do
    allowFill s.mask true
    (f.fees s.schedule).result
  | .matched f => some do
    allowFill s.mask false
    (f.fees s.schedule).result
  | _ => none

/-- Whether a fill of the market has a breakdown that the market has no room for. -/
def overflows (s : Session) (x : Step) : Bool :=
  match s.priced? x with
  | some (.ok b) => !(s.market.add b.feeToMarket.val).isOk
  | _ => false

/-- A run in which the market has room for whatever its fills give. -/
def HasRoom (s : Session) (steps : List Step) : Prop :=
  ∀ v ∈ s.visits steps, v.1.overflows v.2 = false

theorem priced?_of_same_terms (schedule : t.schedule = s.schedule) (mask : t.mask = s.mask) :
    t.priced? x = s.priced? x := by
  cases x <;> simp only [priced?, schedule, mask]

theorem isSome_priced? (s : Session) (x : Step) : (s.priced? x).isSome = x.ofMarket := by
  cases x with
  | amm | matched | setPaused | replace | rebuild | venue => rfl

theorem answer_of_priced {r : Except Error FillBreakdown} (priced : s.priced? x = some r)
    (room : s.overflows x = false) : (s.advance x).answer = Answer.fill <$> r := by
  simp only [overflows, priced] at room
  rw [answer_advance]
  cases x with
  | setPaused | replace | rebuild | venue => cases priced
  | amm f | matched f =>
    obtain rfl := Option.some.inj priced
    simp only [step, Traced.result_bind, Traced.result_liftM, Traced.result_pure]
    cases allowed : allowFill s.mask _ with
    | error e => rfl
    | ok _ =>
      cases fees : (f.fees s.schedule).result with
      | error e => rfl
      | ok b =>
        simp only [allowed, fees, ok_bind] at room ⊢
        cases moved : s.market.add b.feeToMarket.val with
        | error e =>
          rw [moved] at room
          cases room
        | ok market => rfl

/-- Where the market has room, the replies to its fills are what the fills are priced at. -/
theorem replies_filter_priced (fills : ∀ x ∈ steps, x.isFill = true) {s : Session}
    (room : s.HasRoom steps) :
    ((s.replies steps).filter fun v => v.1.ofMarket) =
      steps.filterMap fun x => (s.priced? x).map fun r => (x, Answer.fill <$> r) := by
  induction steps generalizing s with
  | nil => rfl
  | cons x rest ih =>
    obtain ⟨fill, others⟩ := List.forall_mem_cons.mp fills
    obtain ⟨here, later⟩ := List.forall_mem_cons.mp room
    obtain ⟨schedule, mask⟩ := (effect_advance s x).same_terms fill
    -- A fill before it leaves what a fill is priced at, as only the balances move.
    have remaining := ih others later
    simp only [priced?_of_same_terms schedule mask] at remaining
    have kind := isSome_priced? s x
    simp only [replies_cons, List.filter_cons, List.filterMap_cons, remaining, ← kind]
    cases priced : s.priced? x with
    | none => rfl
    | some r =>
      rw [answer_of_priced priced here]
      rfl

/-- What a fill of the market is answered does not depend on where in the run it stands. -/
theorem answer_of_room (fills : ∀ x ∈ steps, x.isFill = true) (room : s.HasRoom steps)
    (market : x.ofMarket = true) {answer : Except Error Answer}
    (member : (x, answer) ∈ s.replies steps) :
    (s.priced? x).map (Answer.fill <$> ·) = some answer := by
  have part : (x, answer) ∈ (s.replies steps).filter fun v => v.1.ofMarket :=
    List.mem_filter.mpr ⟨member, market⟩
  rw [replies_filter_priced fills room] at part
  obtain ⟨y, _, same⟩ := List.mem_filterMap.mp part
  obtain ⟨r, priced, pair⟩ := Option.map_eq_some_iff.mp same
  cases pair
  rw [priced]
  rfl

/-- Fills that keep their order within the market's and within the venue's get the same replies, and
the session ends the same. If the market has room for its fills in either order, they may be
permuted among themselves as well: each still gets the same answer, and the session ends the
same. -/
theorem fills_commute (s : Session) {steps : List Step} (fills : ∀ x ∈ steps, x.isFill = true)
    {reordered : List Step} (perm : reordered.Perm steps)
    (venue : reordered.filter Step.onVenue = steps.filter Step.onVenue) :
    (reordered.filter Step.ofMarket = steps.filter Step.ofMarket →
      ((s.replies reordered).filter (fun v => v.1.ofMarket) =
        (s.replies steps).filter fun v => v.1.ofMarket) ∧
      ((s.replies reordered).filter (fun v => v.1.onVenue) =
        (s.replies steps).filter fun v => v.1.onVenue) ∧
      s.final reordered = s.final steps) ∧
    (s.HasRoom steps → s.HasRoom reordered →
      (s.replies reordered).Perm (s.replies steps) ∧
      (∀ x answer answer', x.ofMarket = true → (x, answer) ∈ s.replies steps →
        (x, answer') ∈ s.replies reordered → answer = answer') ∧
      ((s.replies reordered).filter (fun v => v.1.onVenue) =
        (s.replies steps).filter fun v => v.1.onVenue) ∧
      s.final reordered = s.final steps) := by
  have fills' : ∀ x ∈ reordered, x.isFill = true := fun x member => fills x (perm.mem_iff.mp member)
  have onVenue : ((s.replies reordered).filter fun v => v.1.onVenue) =
      (s.replies steps).filter fun v => v.1.onVenue := by
    rw [replies_filter_onVenue fills, replies_filter_onVenue fills', venue]
  constructor
  · intro market
    have ofMarket : ((s.replies reordered).filter fun v => v.1.ofMarket) =
        (s.replies steps).filter fun v => v.1.ofMarket := by
      rw [replies_filter_ofMarket fills, replies_filter_ofMarket fills', market]
    have alike := replies_perm fills fills' (ofMarket ▸ .refl _) onVenue
    exact ⟨ofMarket, onVenue, final_eq_of_perm fills fills' alike⟩
  · intro room room'
    have priced := replies_filter_priced fills room
    have priced' := replies_filter_priced fills' room'
    have alike : (s.replies reordered).Perm (s.replies steps) := by
      refine replies_perm fills fills' ?_ onVenue
      rw [priced, priced']
      exact perm.filterMap _
    refine ⟨alike, ?_, onVenue, final_eq_of_perm fills fills' alike⟩
    intro x answer answer' market member member'
    exact Option.some.inj ((answer_of_room fills room market member).symm.trans
      (answer_of_room fills' room' market member'))

/-- Four fills, one of which fails and one of which costs the market, with the venue's fill moved to
the front and in reverse, which comes to the same pool of 1000 and the same loss of 6000. -/
theorem four_fills_reordered :
    let loss := Step.amm (AmmTrade.fill ⟨⟨40000000, 0, 0, true, true⟩, -50000, false⟩)
    let order := Step.matched (MatchedTrade.fill ⟨40000000, 0, 0, true, false⟩)
    let refused := Step.amm (AmmTrade.fill ⟨⟨-1, 0, 0, true, true⟩, 0, false⟩)
    let draw := Step.venue (VenueTrade.fill ⟨40000000, 0, 0, true, 32000, 8000, 0⟩)
    let steps := [loss, order, draw, refused]
    let s : Session := ⟨.standard, ⟨5000, by decide, by decide⟩, .zero, .int 0⟩
    (s.run steps).map (fun o => (o.answer.isOk, o.after.pool.val, o.after.market.val)) =
        [(true, 5000, -18000), (true, 5000, -6000), (true, 1000, -6000), (false, 1000, -6000)] ∧
      (s.run steps.reverse).map (fun o => (o.answer.isOk, o.after.pool.val, o.after.market.val)) =
        [(false, 5000, 0), (true, 1000, 0), (true, 1000, 12000), (true, 1000, -6000)] ∧
      (∀ x ∈ steps, x.isFill = true) ∧ s.HasRoom steps ∧ s.HasRoom steps.reverse ∧
      s.final [draw, loss, order, refused] = s.final steps ∧
      s.final steps.reverse = s.final steps ∧
      (s.replies steps.reverse).Perm (s.replies steps) := by
  intro loss order refused draw steps s
  have fills : ∀ x ∈ steps, x.isFill = true := by decide
  have room : ∀ v ∈ s.visits steps, v.1.overflows v.2 = false := by decide +kernel
  have room' : ∀ v ∈ s.visits steps.reverse, v.1.overflows v.2 = false := by decide +kernel
  have moved : [draw, loss, order, refused].Perm steps :=
    (@List.perm_middle _ draw [loss, order] [refused]).symm
  obtain ⟨-, -, same⟩ := (fills_commute s fills moved rfl).1 rfl
  obtain ⟨replies, -, -, same'⟩ :=
    (fills_commute s fills (List.reverse_perm steps) rfl).2 room room'
  exact ⟨by decide +kernel, by decide +kernel, fills, room, room', same, same', replies⟩

end ExchangeFees.Session

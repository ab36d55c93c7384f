import ExchangeFees.Proofs.Session.Run

/-! What each step of a session reads and writes. A fill of the market neither reads nor moves the
pool, a fill on a venue neither reads nor moves the market, and no fill changes the schedule or
the mask. The mask is read by the guard alone. -/
namespace ExchangeFees.Session

def withPool (s : Session) (pool : U128) : Session := { s with pool }

def withMarket (s : Session) (market : I128) : Session := { s with market }

def withMask (s : Session) (mask : Value) : Session := { s with mask }

namespace Step

/-- A fill by the market's own maker or between two orders. -/
def ofMarket : Step → Bool
  | amm _ | matched _ => true
  | _ => false

/-- A fill on an outside venue. -/
def onVenue : Step → Bool
  | venue _ => true
  | _ => false

def isFill (x : Step) : Bool := x.ofMarket || x.onVenue

variable {x : Step}

theorem onVenue_of_isFill (fill : x.isFill = true) : x.onVenue = !x.ofMarket := by
  cases x with
  | amm | matched | venue => rfl
  | setPaused | replace | rebuild => cases fill

theorem onVenue_of_ofMarket (market : x.ofMarket = true) : x.onVenue = false := by
  have fill : x.isFill = true := by rw [isFill, market, Bool.true_or]
  rw [onVenue_of_isFill fill, market]
  rfl

theorem ofMarket_of_onVenue (venue : x.onVenue = true) : x.ofMarket = false := by
  cases market : x.ofMarket with
  | false => rfl
  | true => exact venue.symm.trans (onVenue_of_ofMarket market)

end Step

/-- The same outcome, with the state after it changed. -/
def Outcome.map (f : Session → Session) (o : Outcome) : Outcome := { o with after := f o.after }

variable {s t after : Session} {x y : Step} {answer : Except Error Answer}

theorem answer_advance (s : Session) (x : Step) :
    (s.advance x).answer = Prod.fst <$> (s.step x).result := by
  simp only [advance]
  cases (s.step x).result with
  | error e => rfl
  | ok outcome => rfl

/-- A step that differs from another in the states before and after it alone has the same outcome
but for the state. -/
theorem advance_map {f : Session → Session} (start : t = f s)
    (stepped : t.step y = Prod.map id f <$> s.step x) : t.advance y = (s.advance x).map f := by
  subst start
  simp only [advance, stepped, Traced.result_map, Traced.lines_map]
  cases (s.step x).result with
  | error e => rfl
  | ok outcome => rfl

/-- What a step refuses before it does anything else: a fill that is paused. -/
def guard (s : Session) : Step → Except Error Unit
  | .amm _ => allowFill s.mask true
  | .matched _ | .venue _ => allowFill s.mask false
  | .setPaused _ | .replace _ | .rebuild _ => .ok ()

theorem advance_of_guard_error {e : Error} (refused : s.guard x = .error e) :
    s.advance x = ⟨.error e, s, []⟩ := by
  cases x with
  | setPaused | replace | rebuild => cases refused
  | amm f | matched f | venue f =>
    have allowed : allowFill s.mask _ = .error e := refused
    simp only [advance, step, allowed, Traced.error_bind]

/-- Where its guard lets a step pass under two masks, the step does the same under both. -/
theorem advance_withMask {mask : Value} (keeps : ∀ mask, x ≠ .setPaused mask)
    (allowed : s.guard x = .ok ()) (allowed' : (s.withMask mask).guard x = .ok ()) :
    (s.withMask mask).advance x = (s.advance x).map (·.withMask mask) := by
  refine advance_map rfl ?_
  cases x with
  | setPaused mask => exact absurd rfl (keeps mask)
  | replace | rebuild =>
    simp only [step, map_bind, map_pure]
    rfl
  | amm f | matched f | venue f =>
    have before : allowFill s.mask _ = .ok () := allowed
    have after : allowFill mask _ = .ok () := allowed'
    simp only [step, withMask, before, after, map_bind, map_pure]
    rfl

theorem advance_withPool (inside : x.onVenue = false) (pool : U128) :
    (s.withPool pool).advance x = (s.advance x).map (·.withPool pool) := by
  refine advance_map rfl ?_
  cases x with
  | venue f => cases inside
  | setPaused mask => rfl
  | replace | rebuild | amm | matched =>
    simp only [step, map_bind, map_pure]
    rfl

theorem advance_withMarket (outside : x.ofMarket = false) (market : I128) :
    (s.withMarket market).advance x = (s.advance x).map (·.withMarket market) := by
  refine advance_map rfl ?_
  cases x with
  | amm f | matched f => cases outside
  | setPaused mask => rfl
  | replace | rebuild | venue =>
    simp only [step, map_bind, map_pure]
    rfl

theorem Effect.exists_withMarket (effect : Effect s x answer after) (market : x.ofMarket = true) :
    ∃ market, after = s.withMarket market := by
  cases effect with
  | failed | amm | matched => exact ⟨_, rfl⟩
  | paused | replaced | rebuilt | venue => cases market

theorem Effect.exists_withPool (effect : Effect s x answer after) (venue : x.onVenue = true) :
    ∃ pool, after = s.withPool pool := by
  cases effect with
  | failed | venue => exact ⟨_, rfl⟩
  | paused | replaced | rebuilt | amm | matched => cases venue

theorem Effect.same_pool (effect : Effect s x answer after) (inside : x.onVenue = false) :
    after.pool = s.pool := by
  cases effect with
  | venue => cases inside
  | failed | paused | replaced | rebuilt | amm | matched => rfl

/-- No fill changes the schedule or the mask. -/
theorem Effect.same_terms (effect : Effect s x answer after) (fill : x.isFill = true) :
    after.schedule = s.schedule ∧ after.mask = s.mask := by
  cases effect with
  | failed | amm | matched | venue => exact ⟨rfl, rfl⟩
  | paused | replaced | rebuilt => cases fill

theorem Effect.same_mask (effect : Effect s x answer after) (keeps : ∀ mask, x ≠ .setPaused mask) :
    after.mask = s.mask := by
  cases effect with
  | paused mask => exact absurd rfl (keeps mask)
  | failed | replaced | rebuilt | amm | matched | venue => rfl

/-- Steps that do not notice a change of the state give the same replies after it. -/
theorem replies_map {f : Session → Session} {steps : List Step}
    (unnoticed : ∀ s, ∀ x ∈ steps, (f s).advance x = (s.advance x).map f) (s : Session) :
    (f s).replies steps = s.replies steps := by
  induction steps generalizing s with
  | nil => rfl
  | cons x rest ih =>
    obtain ⟨first, others⟩ := List.forall_mem_cons.mp (unnoticed s)
    rw [replies_cons, replies_cons, first]
    exact congrArg _ (ih (fun s y later => unnoticed s y (List.mem_cons_of_mem x later)) _)

end ExchangeFees.Session

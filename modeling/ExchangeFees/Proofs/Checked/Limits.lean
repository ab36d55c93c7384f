import ExchangeFees.Proofs.Checked.Results

/-! Computations that nothing but the upper bound of the signed width can stop. What they return and
what they fail by is said by the amounts of the market that they have to keep within it, one after
the other. -/
namespace ExchangeFees

/-- A computation that returns exactly if the given amounts of the market fit the signed width,
then a result of the given description, and otherwise fails by an amount that does not fit. -/
structure LimitedBy {α : Type} (amounts : List Int) (description : α → Prop)
    (x : Except Error α) : Prop where
  returns : (∃ a, x = .ok a) ↔ ∀ n ∈ amounts, n ≤ Width.i128.hi
  described : ∀ a, x = .ok a → description a
  fails : FailsOnly (fun e => ∃ n ∈ amounts, Width.i128.hi < n ∧
    (e = .arithmetic (.lossyCast n .i128) ∨ e = .arithmetic (.overflow .i128 n))) x

namespace LimitedBy

variable {α β : Type} {amounts more : List Int} {P : α → Prop} {Q : β → Prop}

theorem ok {a : α} (described : P a) : LimitedBy [] P (.ok a) := by
  refine ⟨⟨fun _ => List.forall_mem_nil _, fun _ => ⟨a, rfl⟩⟩, ?_, .ok a⟩
  intro b returned
  obtain rfl := Except.ok.inj returned
  exact described

/-- The amounts that limit the rest are added to those that limit the first step. -/
theorem bind {x : Except Error α} {f : α → Except Error β} (first : LimitedBy amounts P x)
    (rest : ∀ a, P a → LimitedBy more Q (f a)) : LimitedBy (amounts ++ more) Q (x >>= f) := by
  have after : ∀ a, x = .ok a → LimitedBy more Q (f a) :=
    fun a returned => rest a (first.described a returned)
  refine ⟨?returns, ?described, ?fails⟩
  case returns =>
    rw [List.forall_mem_append, ← first.returns]
    cases x with
    | error e =>
      constructor
      · rintro ⟨b, returned⟩
        cases returned
      · rintro ⟨⟨a, returned⟩, _⟩
        cases returned
    | ok a =>
      rw [ok_bind, (after a rfl).returns]
      exact (and_iff_right ⟨a, rfl⟩).symm
  case described =>
    intro b returned
    obtain ⟨a, returned, next⟩ := bind_eq_ok.mp returned
    exact (after a returned).described b next
  case fails =>
    refine (first.fails.mono ?_).bind_of_ok fun a returned => (after a returned).fails.mono ?_
    · rintro e ⟨n, member, exceeds⟩
      exact ⟨n, List.mem_append_left _ member, exceeds⟩
    · rintro e ⟨n, member, exceeds⟩
      exact ⟨n, List.mem_append_right _ member, exceeds⟩

/-- Above the lower bound, an integer fails to be kept within the signed width only by exceeding
the upper bound. -/
theorem within {n : Int} {failure : Error} (low : Width.i128.lo ≤ n)
    (named : failure = .arithmetic (.lossyCast n .i128) ∨
      failure = .arithmetic (.overflow .i128 n)) :
    LimitedBy [n] (fun c : I128 => c.val = n) (Checked.within .i128 n failure) := by
  refine ⟨?_, fun c => Checked.within_eq_ok.mp, ?_⟩
  · rw [List.forall_mem_singleton]
    constructor
    · rintro ⟨c, kept⟩
      exact Checked.within_eq_ok.mp kept ▸ c.le_hi
    · intro fits
      obtain ⟨c, value⟩ := Checked.exists_val.mpr (⟨low, fits⟩ : Width.i128.Holds n)
      exact ⟨c, Checked.within_eq_ok.mpr value⟩
  · intro e failed
    obtain ⟨outside, rfl⟩ := Checked.within_eq_error.mp failed
    have exceeds : Width.i128.hi < n := Int.not_le.mp fun fits => outside ⟨low, fits⟩
    exact ⟨n, List.mem_singleton_self n, exceeds, named⟩

theorem castInt {n : Int} (held : Width.u128.Holds n) :
    LimitedBy [n] (fun c : I128 => c.val = n) (Checked.castInt n .i128) :=
  within (Int.le_trans Width.i128.lo_nonpos held.lo_le)
    (.inl (Error.naming_of_short held.isShort _))

theorem add {a : I128} {n : Int} (low : Width.i128.lo ≤ a.val + n) :
    LimitedBy [a.val + n] (fun c : I128 => c.val = a.val + n) (a.add n) :=
  within low (.inr rfl)

end LimitedBy

end ExchangeFees

import ExchangeFees.Proofs.Share.Growth
import Mathlib.Algebra.Order.BigOperators.Group.List
import Mathlib.Algebra.Order.Ring.Int

/-! Splitting an amount into pieces. Every piece of an amount whose share can be taken has a share
too, and together the pieces give no more than the whole and less than one unit a piece below it.
The pieces are any list but the empty one, and numerator and denominator are any values. -/
namespace ExchangeFees

namespace Ratio

/-- Each piece after the first can lose one unit. -/
theorem sum_floor_bounds {r : Ratio U128} (nonzero : r.denominator.val ≠ 0) (first : Int)
    (rest : List Int) :
    ((first :: rest).map r.floor).sum ≤ r.floor (first :: rest).sum ∧
      r.floor (first :: rest).sum ≤ ((first :: rest).map r.floor).sum + rest.length := by
  induction rest generalizing first with
  | nil => simp
  | cons second rest ih =>
    obtain ⟨low, high⟩ := ih second
    obtain ⟨least, most⟩ := floor_add nonzero first (second :: rest).sum
    rw [List.map_cons, List.sum_cons, List.sum_cons, List.length_cons]
    omega

end Ratio

theorem proportion_int_eq_ok {n : Int} {numerator denominator : Value} {c : U128} :
    proportion (.int n) numerator denominator = .ok c ↔ Width.u128.Holds n ∧
      ∃ r : Ratio U128, (⟨numerator, denominator⟩ : Ratio Value).Reads r ∧ r.Takes n ∧
        c.val = r.floor n := by
  simp only [proportion, bind_eq_ok, Checked.of_int_eq_ok, Ratio.take_eq_ok]
  constructor
  · rintro ⟨amount, rfl, share⟩
    exact ⟨⟨amount.lo_le, amount.le_hi⟩, share⟩
  · rintro ⟨held, share⟩
    obtain ⟨amount, rfl⟩ := Checked.exists_val.mpr held
    exact ⟨amount, rfl, share⟩

/-- The shares of the pieces of an amount beside the share of the whole: together no more, and at
most one unit less for each piece but one. -/
structure SplitsInto (take : Value → Except Error U128) (pieces : List Int) (whole : U128)
    (shares : List U128) : Prop where
  taken : List.Forall₂ (fun n share => take (.int n) = .ok share) pieces shares
  sum_le : (shares.map Checked.val).sum ≤ whole.val
  le_sum : whole.val ≤ (shares.map Checked.val).sum + ((pieces.length : Int) - 1)

/-- Pieces that each have a share by the same ratio have their shares in a list. -/
theorem exists_shares_of_pieces (take : Value → Except Error U128) {r : Ratio U128}
    {pieces : List Int} (each : ∀ n ∈ pieces, ∃ share : U128, take (.int n) = .ok share ∧
      share.val = r.floor n) :
    ∃ shares, List.Forall₂ (fun n share => take (.int n) = .ok share) pieces shares ∧
      shares.map Checked.val = pieces.map r.floor := by
  induction pieces with
  | nil => exact ⟨[], .nil, rfl⟩
  | cons n rest ih =>
    obtain ⟨⟨share, taken, value⟩, others⟩ := List.forall_mem_cons.mp each
    obtain ⟨shares, takenRest, values⟩ := ih others
    refine ⟨share :: shares, .cons taken takenRest, ?_⟩
    rw [List.map_cons, List.map_cons, value, values]

theorem proportion_splits (numerator denominator : Value) {pieces : List Int} {whole : U128}
    (some : pieces ≠ []) (nonneg : ∀ n ∈ pieces, 0 ≤ n)
    (taken : proportion (.int pieces.sum) numerator denominator = .ok whole) :
    ∃ shares, SplitsInto (proportion · numerator denominator) pieces whole shares := by
  obtain ⟨held, r, reads, takes, value⟩ := proportion_int_eq_ok.mp taken
  have each : ∀ n ∈ pieces, ∃ share : U128,
      proportion (.int n) numerator denominator = .ok share ∧ share.val = r.floor n := by
    intro n member
    -- A piece is no more than the sum, so its product fits where that of the sum does.
    have le : n ≤ pieces.sum := List.single_le_sum nonneg n member
    have pieceHeld : Width.u128.Holds n := ⟨nonneg n member, Int.le_trans le held.le_hi⟩
    obtain ⟨amount, rfl⟩ := Checked.exists_val.mpr pieceHeld
    obtain ⟨share, shareVal⟩ := Ratio.exists_floor (takes.mono le)
    exact ⟨share, proportion_int_eq_ok.mpr ⟨pieceHeld, r, reads, takes.mono le, shareVal⟩, shareVal⟩
  obtain ⟨shares, takenEach, values⟩ :=
    exists_shares_of_pieces (proportion · numerator denominator) each
  obtain ⟨first, rest, rfl⟩ := List.exists_cons_of_ne_nil some
  obtain ⟨low, high⟩ := Ratio.sum_floor_bounds takes.1 first rest
  rw [← values, ← value] at low high
  refine ⟨shares, takenEach, low, ?_⟩
  rw [List.length_cons, Nat.cast_add, Nat.cast_one, Int.add_sub_cancel]
  exact high

/-- A gross fee of pieces, and any share of them, is defined where it is for the whole. The pieces
pay no more than the whole together and lose at most one unit for each piece but one. -/
theorem splitting_loses_a_unit_per_piece (pieces : List Int) (some : pieces ≠ [])
    (nonneg : ∀ n ∈ pieces, 0 ≤ n) :
    (∀ (s : Schedule) whole, s.grossFee (.int pieces.sum) = .ok whole →
      ∃ shares, SplitsInto s.grossFee pieces whole shares) ∧
    ∀ numerator denominator whole,
      proportion (.int pieces.sum) numerator denominator = .ok whole →
        ∃ shares, SplitsInto (proportion · numerator denominator) pieces whole shares := by
  constructor
  · intro s whole gross
    -- A gross fee is the proportion by the schedule's fee terms.
    exact proportion_splits s.fee.numerator.toValue s.fee.denominator.toValue some nonneg gross
  · intro numerator denominator whole taken
    exact proportion_splits numerator denominator some nonneg taken

/-- Three pieces that a fee of a thousandth rounds down to nothing lose both units of the fee on the
whole. -/
theorem three_pieces_lose_two_units :
    let s := FeeSchedule.standard.map Term.plain
    s.grossFee (.int [999, 999, 999].sum) = .ok ⟨2, by decide, by decide⟩ ∧
    ∃ shares, SplitsInto s.grossFee [999, 999, 999] ⟨2, by decide, by decide⟩ shares ∧
      (shares.map Checked.val).sum = 0 := by
  intro s
  refine ⟨rfl, ?_⟩
  obtain ⟨shares, split⟩ := (splitting_loses_a_unit_per_piece [999, 999, 999] (by decide)
    (by decide)).1 s ⟨2, by decide, by decide⟩ rfl
  have nothing : ∀ c, s.grossFee (.int 999) = .ok c → c.val = 0 := by
    intro c taken
    obtain rfl := Except.ok.inj taken
    rfl
  refine ⟨shares, split, ?_⟩
  obtain ⟨first, second, third, rfl, one, two, three⟩ :
      ∃ a b c, shares = [a, b, c] ∧ a.val = 0 ∧ b.val = 0 ∧ c.val = 0 := by
    rcases split.taken with _ | ⟨one, _ | ⟨two, _ | ⟨three, _ | _⟩⟩⟩
    exact ⟨_, _, _, rfl, nothing _ one, nothing _ two, nothing _ three⟩
  simp [one, two, three]

end ExchangeFees

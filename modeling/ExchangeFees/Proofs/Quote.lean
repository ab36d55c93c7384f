import ExchangeFees.Proofs.Decimal
import ExchangeFees.Proofs.Failure
import ExchangeFees.Quote
import Mathlib.Data.Rat.Floor

/-! What the text of an amount denotes. A text in decimal notation denotes one rational number, and
that of an amount denotes the amount in quote units, to the last digit. An amount has a text exactly
if it has no more digits than are shown. -/
namespace ExchangeFees

namespace Text

/-- The number that digits with a point among them denote. -/
def unsignedDecimal? (cs : List Char) : Option ℚ :=
  match DecimalNumeral.spanDigits cs with
  | (whole, '.' :: places) =>
    if whole ≠ [] ∧ places ≠ [] ∧ places.all Char.isDigit then
      some ((natOfDigits whole : ℚ) + (natOfDigits places : ℚ) / 10 ^ places.length)
    else none
  | _ => none

/-- The number that a text in decimal notation denotes, after a minus if it is negative. -/
def decimal? (cs : List Char) : Option ℚ :=
  match cs with
  | '-' :: unsigned => (unsignedDecimal? unsigned).map fun q => -q
  | unsigned => unsignedDecimal? unsigned

theorem unsignedDecimal?_places (whole n : Nat) {k : Nat} (placed : 0 < k) :
    unsignedDecimal? (digits whole ++ '.' :: places k n) =
      some ((whole : ℚ) + ((n % 10 ^ k : Nat) : ℚ) / 10 ^ k) := by
  have split := DecimalNumeral.spanDigits_append (isDigit_digits whole)
    (show ∀ c, ('.' :: places k n).head? = some c → c.isDigit = false by simp)
  have some_places : places k n ≠ [] := by
    rw [← List.length_pos_iff, length_places]
    exact placed
  rw [unsignedDecimal?, split]
  simp only
  rw [if_pos ⟨digits_ne_nil whole, some_places, List.all_eq_true.mpr (isDigit_places k n)⟩,
    natOfDigits_digits, natOfDigits_places, length_places]
  rfl

/-- A text that begins with no minus is unsigned. -/
theorem decimal?_of_head {cs : List Char} (unsigned : cs.head? ≠ some '-') :
    decimal? cs = unsignedDecimal? cs := by
  unfold decimal?
  split
  · exact absurd rfl unsigned
  · rfl

end Text

namespace Quote

open Text

/-- The amount is so large that its quote units round up to a power of ten beyond the greatest
exponent. -/
def Overflows (n : Int) : Prop := 10 ^ 1000006 ≤ n.natAbs + 5 * 10 ^ 999957

instance (n : Int) : Decidable (Overflows n) := Nat.decLe _ _

theorem overflows_pow : Overflows (10 ^ 1000006 : Nat) := by
  rw [Overflows, Int.natAbs_natCast]
  exact Nat.le_add_right _ _

theorem pow_eq_of_places : 10 ^ 1000006 = 10 ^ digitLimit * 10 * 10 ^ 999957 := by
  rw [← Nat.pow_succ, ← Nat.pow_add]
  congr 1

theorem pow_greatest :
    10 ^ (Decimal.greatestExponent + 1 + quotePlaces - digitLimit) = 10 ^ 999957 * 10 := by
  have shift {k m : Nat} (places : k = m + 1) : 10 ^ k = 10 ^ m * 10 := places ▸ Nat.pow_succ 10 m
  exact shift rfl

theorem overflows_iff (n : Int) :
    Overflows n ↔ (2 * 10 ^ digitLimit - 1) *
      10 ^ (Decimal.greatestExponent + 1 + quotePlaces - digitLimit) ≤ 2 * n.natAbs := by
  rw [Overflows, pow_eq_of_places, pow_greatest]
  simp only [digitLimit]
  -- the shared power is a variable from here on: its million digits are never written out
  generalize 10 ^ 999957 = place
  omega

theorem Overflows.limit_le {n : Int} (overflows : Overflows n) : limit ≤ n.natAbs := by
  have positive := Decimal.pow_ten_pos 999957
  rw [Overflows, pow_eq_of_places] at overflows
  simp only [limit, digitLimit, Nat.pow_eq] at overflows ⊢
  generalize 10 ^ 999957 = place at *
  omega

/-- An amount within the limit is a decimal of its own digits; every other one is refused, the
largest by the division. -/
theorem toDecimal_eq (n : Int) :
    toDecimal n =
      if n.natAbs < limit then .ok ⟨n < 0, n.natAbs, -quotePlaces⟩
      else if Overflows n then .error .displayOverflow else .error .displayRange := by
  have quotient : (Decimal.ofInt n).divide digitLimit (Decimal.ofInt quoteUnit) (by decide) = _ :=
    Decimal.divide_pow_eq (k := quotePlaces) (by decide) (by decide)
  simp only [← overflows_iff] at quotient
  rw [toDecimal, quotient]
  by_cases overflows : Overflows n
  · rw [if_pos overflows, if_neg (Nat.not_lt.mpr overflows.limit_le), if_pos overflows]
    rfl
  · rw [if_neg overflows, if_neg overflows]
    exact Decimal.quantize_quotient_pow (k := quotePlaces) (by decide)

theorem chars_decimal (n : Int) : Decimal.chars ⟨n < 0, n.natAbs, -quotePlaces⟩ = chars n := by
  simp [Decimal.chars, chars, quotePlaces, quoteUnit]

theorem text_eq (n : Int) :
    text n =
      if n.natAbs < limit then .ok (String.ofList (chars n))
      else if Overflows n then .error .displayOverflow else .error .displayRange := by
  rw [text, toDecimal_eq, ← chars_decimal]
  split
  · rfl
  · split <;> rfl

theorem unsignedDecimal?_chars (n : Nat) :
    unsignedDecimal? (digits (n / quoteUnit) ++ '.' :: places quotePlaces n) =
      some ((n : ℚ) / 10 ^ 6) := by
  have parts : n / quoteUnit * 10 ^ 6 + n % 10 ^ quotePlaces = n := Nat.div_add_mod' n (10 ^ 6)
  have cast : ((n / quoteUnit : Nat) : ℚ) * 10 ^ 6 + ((n % 10 ^ quotePlaces : Nat) : ℚ) = n := by
    exact_mod_cast parts
  rw [unsignedDecimal?_places _ _ (by decide), ← cast, add_div,
    mul_div_cancel_right₀ _ (by norm_num)]
  rfl

/-- The text of an amount denotes the amount in quote units. -/
theorem decimal?_chars (n : Int) : decimal? (chars n) = some ((n : ℚ) / 10 ^ 6) := by
  have unsigned := unsignedDecimal?_chars n.natAbs
  have magnitude : ((n.natAbs : Nat) : ℚ) = |n| := Nat.cast_natAbs n
  by_cases negative : n < 0
  · have signed : chars n =
        '-' :: (digits (n.natAbs / quoteUnit) ++ '.' :: places quotePlaces n.natAbs) := by
      simp [chars, negative]
    rw [magnitude, abs_of_neg negative] at unsigned
    rw [signed, decimal?, unsigned]
    simp [neg_div]
  · have plain : chars n = digits (n.natAbs / quoteUnit) ++ '.' :: places quotePlaces n.natAbs := by
      simp [chars, negative]
    rw [magnitude, abs_of_nonneg (not_lt.mp negative)] at unsigned
    rw [plain, decimal?_of_head, unsigned]
    rw [List.head?_append_of_ne_nil _ (digits_ne_nil _)]
    intro minus
    cases isDigit_digits _ _ (List.mem_of_mem_head? minus)

end Quote

theorem Checked.natAbs_lt_limit {w : Width} (c : Checked w) : c.val.natAbs < Quote.limit := by
  have low : -(Quote.limit : Int) < w.lo := by cases w <;> decide
  have high : w.hi < Quote.limit := by cases w <;> decide
  have := c.lo_le
  have := c.le_hi
  omega

/-- Fee breakdowns, of either kind. -/
inductive Record.IsBreakdown : Record → Prop
  | fill (b : FillBreakdown) : IsBreakdown (.fill b)
  | venueFill (b : VenueBreakdown) : IsBreakdown (.venueFill b)

/-- The fields of a breakdown are integers of no more digits than are shown. -/
theorem Record.IsBreakdown.exists_amount {r : Record} (breakdown : r.IsBreakdown) :
    ∀ e ∈ r.fields, ∃ n : Int, e.2 = .int n ∧ n.natAbs < Quote.limit := by
  obtain ⟨amounts, values, small⟩ : ∃ amounts : List Int,
      r.fieldValues = amounts.map Value.int ∧ ∀ n ∈ amounts, n.natAbs < Quote.limit := by
    cases breakdown with
    | fill b => exact ⟨_, rfl, by simp [Checked.natAbs_lt_limit]⟩
    | venueFill b => exact ⟨_, rfl, by simp [Checked.natAbs_lt_limit]⟩
  rintro ⟨name, x⟩ member
  have valued := (List.of_mem_zip member).2
  rw [values] at valued
  obtain ⟨n, amount, rfl⟩ := List.mem_map.mp valued
  exact ⟨n, rfl, small n amount⟩

/-- Computations that each return what two relations know, over a list. -/
theorem exists_mapM_forall₂ {α β γ : Type} {f : α → Except Error β} {R : β → γ → Prop}
    {S : α → γ → Prop} {l : List α} (each : ∀ a ∈ l, ∃ b c, f a = .ok b ∧ R b c ∧ S a c) :
    ∃ bs cs, l.mapM f = .ok bs ∧ List.Forall₂ R bs cs ∧ List.Forall₂ S l cs := by
  induction l with
  | nil => exact ⟨[], [], rfl, .nil, .nil⟩
  | cons a rest ih =>
    obtain ⟨⟨b, c, first, hR, hS⟩, others⟩ := List.forall_mem_cons.mp each
    obtain ⟨bs, cs, returned, hRs, hSs⟩ := ih others
    refine ⟨b :: bs, c :: cs, ?_, .cons hR hRs, .cons hS hSs⟩
    rw [List.mapM_cons, first, returned]
    rfl

end ExchangeFees

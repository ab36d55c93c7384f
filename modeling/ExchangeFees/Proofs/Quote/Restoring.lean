import ExchangeFees.Checked.Operand
import ExchangeFees.Proofs.Quote
import ExchangeFees.Proofs.Text.Numeral
import Mathlib.Data.List.Forall2

/-! The text of an amount keeps all its digits. Without its point it is a numeral of the amount in
units, so an amount is read back from its text, and the fields of a fee breakdown from theirs. -/
namespace ExchangeFees

/-- Plain and checked integers, with the integer that each is. -/
inductive Value.IsInteger : Value → Int → Prop
  | plain (n : Int) : IsInteger (.int n) n
  | checked {w : Width} (c : Checked w) : IsInteger c.toValue c.val

namespace Quote

/-- The amount that a text in quote units stands for: without its point it is a numeral. -/
def units? (s : String) : Option Int := Text.integer? (String.ofList (s.toList.filter (· ≠ '.')))

/-- How an amount is written: a minus exactly if it is negative, a whole part without superfluous
zeros, a point, and six places. -/
structure Written (n : Int) (whole places : List Char) (s : String) : Prop where
  text : s.toList = (if n < 0 then ['-'] else []) ++ whole ++ '.' :: places
  whole_digits : ∀ c ∈ whole, c.isDigit = true
  whole_ne_nil : whole ≠ []
  no_superfluous_zero : whole.head? = some '0' → whole = ['0']
  places_digits : ∀ c ∈ places, c.isDigit = true
  six_places : places.length = 6

/-- A field shown in quote beside the field it was: the name is kept, and the text stands for the
integer. -/
inductive RestoredAs : String × Value → String × Value → Prop
  | field (name : String) {s : String} {n : Int} (read : units? s = some n) :
      RestoredAs (name, .text s) (name, .int n)

section Text

variable {n m : Int} {s : String}

theorem text_eq_ok : text n = .ok s ↔ n.natAbs < limit ∧ s = String.ofList (chars n) := by
  rw [text_eq]
  split
  · rename_i small
    simp [small, eq_comm]
  · rename_i large
    split <;> simp [large]

theorem written_chars (n : Int) :
    Written n (Text.digits (n.natAbs / quoteUnit)) (Text.places quotePlaces n.natAbs)
      (String.ofList (chars n)) where
  text := String.toList_ofList
  whole_digits := Text.isDigit_digits _
  whole_ne_nil := Text.digits_ne_nil _
  no_superfluous_zero := by
    intro zero
    rw [(Text.head?_digits_eq_zero _).mp zero]
    exact Text.digits.eq_def 0
  places_digits := Text.isDigit_places _ _
  six_places := Text.length_places _ _

theorem filter_point {ds : List Char} (isDigit : ∀ c ∈ ds, c.isDigit = true) :
    ds.filter (· ≠ '.') = ds := by
  refine List.filter_eq_self.mpr fun c member => decide_eq_true ?_
  rintro rfl
  cases isDigit '.' member

/-- Without its point a written amount is a numeral of its digits. -/
theorem Written.units? {whole places : List Char} (written : Written n whole places s)
    (few : (whole ++ places).length ≤ Text.digitLimit)
    (number : Text.natOfDigits (whole ++ places) = n.natAbs) : units? s = some n := by
  have digits : ∀ c ∈ whole ++ places, c.isDigit = true :=
    List.forall_mem_append.mpr ⟨written.whole_digits, written.places_digits⟩
  have without : s.toList.filter (· ≠ '.') =
      (if n < 0 then ['-'] else []) ++ (whole ++ places) := by
    rw [written.text, List.filter_append, List.filter_append, List.filter_cons_of_neg (by simp),
      filter_point written.whole_digits, filter_point written.places_digits, List.append_assoc]
    split <;> rfl
  rw [Quote.units?, without, Text.integer?_digits digits (by simp [written.whole_ne_nil]) few,
    number]
  split <;> congr 1 <;> omega

theorem units?_chars (small : n.natAbs < limit) : units? (String.ofList (chars n)) = some n := by
  have whole : n.natAbs / quoteUnit < 10 ^ 42 := Nat.div_lt_of_lt_mul small
  have short : (Text.digits (n.natAbs / quoteUnit)).length ≤ 42 :=
    (Text.length_digits_le_iff (by decide)).mpr whole
  refine (written_chars n).units? (Text.le_digitLimit ?_)
    (Text.natOfDigits_digits_places quotePlaces n.natAbs)
  rw [List.length_append, Text.length_places, quotePlaces]
  omega

theorem ofValue_eq_text {x : Value} (integer : x.IsInteger n) : ofValue x = text n := by
  cases integer <;> rfl

/-- Texts of fields stand for one amount each. -/
theorem restoredAs_rightUnique : Relator.RightUnique RestoredAs := by
  rintro _ _ _ ⟨name, read⟩ ⟨_, read'⟩
  rw [Option.some.inj (read.symm.trans read')]

end Text

/-- Computations over a list that each return what is related to its entry. -/
theorem exists_mapM_restored {α β : Type} {f : α → Except Error β} {R : β → α → Prop} {l : List α}
    (each : ∀ a ∈ l, ∃ b, f a = .ok b ∧ R b a) : ∃ bs, l.mapM f = .ok bs ∧ List.Forall₂ R bs l := by
  have itself : ∀ a ∈ l, ∃ b c, f a = .ok b ∧ R b c ∧ a = c := by
    intro a member
    obtain ⟨b, returned, related⟩ := each a member
    exact ⟨b, a, returned, related, rfl⟩
  obtain ⟨bs, cs, returned, related, same⟩ := exists_mapM_forall₂ itself
  rw [List.forall₂_eq_eq_eq] at same
  exact ⟨bs, returned, same ▸ related⟩

/-- A breakdown is shown in units as its fields are, and in quote by texts that its fields are read
back from. -/
theorem amounts_of_isBreakdown {r : Record} (breakdown : r.IsBreakdown) :
    (Value.record r).amounts false = .ok r.fields ∧
      ∃ texts, (Value.record r).amounts true = .ok texts ∧
        List.Forall₂ RestoredAs texts r.fields := by
  constructor
  · have kept : ∃ amounts, (Value.record r).amounts false = .ok amounts ∧
        List.Forall₂ Eq amounts r.fields := by
      refine exists_mapM_restored ?_
      rintro ⟨name, x⟩ member
      obtain ⟨n, rfl, _⟩ := breakdown.exists_amount _ member
      exact ⟨(name, .int n), rfl, rfl⟩
    obtain ⟨amounts, returned, same⟩ := kept
    rw [List.forall₂_eq_eq_eq] at same
    rw [returned, same]
  · refine exists_mapM_restored ?_
    rintro ⟨name, x⟩ member
    obtain ⟨n, rfl, small⟩ := breakdown.exists_amount _ member
    have shown : ofValue (.int n) = .ok (String.ofList (chars n)) := text_eq_ok.mpr ⟨small, rfl⟩
    exact ⟨(name, .text (String.ofList (chars n))), by simp only [shown]; rfl,
      .field name (units?_chars small)⟩

/-- An amount of at most 48 digits is written with all of them, in one form, and read back from it;
any other is refused, and so is already the division of one whose quote units are, rounded to 48
digits, beyond the greatest exponent. No two amounts are written alike. A fee breakdown is always
shown in quote, and each of its fields is read back from the text that it is shown as. -/
theorem text_keeps_every_digit :
    (∀ (x : Value) (n : Int), x.IsInteger n →
      ((∃ s, ofValue x = .ok s) ↔ n.natAbs < 10 ^ 48) ∧
      (¬ n.natAbs < 10 ^ 48 → n.natAbs + 5 * 10 ^ 999957 < 10 ^ 1000006 →
        ofValue x = .error .displayRange) ∧
      (10 ^ 1000006 ≤ n.natAbs + 5 * 10 ^ 999957 → ofValue x = .error .displayOverflow) ∧
      ∀ s, ofValue x = .ok s → units? s = some n ∧ ∃ whole places, Written n whole places s) ∧
    (∀ (x y : Value) (n m : Int) (s : String), x.IsInteger n → y.IsInteger m →
      ofValue x = .ok s → ofValue y = .ok s → n = m) ∧
    (∀ r : Record, r.IsBreakdown →
      (Value.record r).amounts false = .ok r.fields ∧
        ∃ texts, (Value.record r).amounts true = .ok texts ∧
          List.Forall₂ RestoredAs texts r.fields) ∧
    ∀ r r' : Record, r.IsBreakdown → r'.IsBreakdown →
      (Value.record r).amounts true = (Value.record r').amounts true →
        (Value.record r).amounts false = (Value.record r').amounts false := by
  have restored : ∀ {x n s}, Value.IsInteger x n → ofValue x = .ok s →
      units? s = some n ∧ ∃ whole places, Written n whole places s := by
    intro x n s integer shown
    rw [ofValue_eq_text integer] at shown
    obtain ⟨small, rfl⟩ := text_eq_ok.mp shown
    exact ⟨units?_chars small, _, _, written_chars n⟩
  refine ⟨?single, ?distinct, fun r => amounts_of_isBreakdown, ?determined⟩
  case single =>
    intro x n integer
    have shown : ofValue x = text n := ofValue_eq_text integer
    refine ⟨?_, fun large below => ?_, fun overflows => ?_, fun s => restored integer⟩
    · rw [shown]
      constructor
      · rintro ⟨s, returned⟩
        exact (text_eq_ok.mp returned).1
      · exact fun small => ⟨_, text_eq_ok.mpr ⟨small, rfl⟩⟩
    · have fits : ¬ Overflows n := Nat.not_le.mpr below
      rw [shown, text_eq, if_neg fits]
      exact if_neg large
    · have large : ¬ n.natAbs < limit := Nat.not_lt.mpr (Overflows.limit_le overflows)
      rw [shown, text_eq, if_neg large]
      exact if_pos overflows
  case distinct =>
    intro x y n m s first second shown shown'
    exact Option.some.inj ((restored first shown).1.symm.trans (restored second shown').1)
  case determined =>
    intro r r' first second alike
    obtain ⟨units, texts, shown, fields⟩ := amounts_of_isBreakdown first
    obtain ⟨units', texts', shown', fields'⟩ := amounts_of_isBreakdown second
    obtain rfl := Except.ok.inj (shown.symm.trans (alike.trans shown'))
    rw [units, units', restoredAs_rightUnique.forall₂ fields fields']

/-- A checked loss of one unit is shown in its six places, the least amount of one digit too many is
refused, and so is one with too great an exponent. -/
theorem smallest_loss_shown :
    let loss : I128 := ⟨-1, by decide, by decide⟩
    (Value.IsInteger loss.toValue (-1) ∧ Value.IsInteger (.int (10 ^ 48)) (10 ^ 48) ∧
      Value.IsInteger (.int (10 ^ 1000006 : Nat)) (10 ^ 1000006 : Nat)) ∧
      (∃ s, ofValue loss.toValue = .ok s ∧ units? s = some (-1) ∧ s = "-0.000001") ∧
      ofValue (.int (10 ^ 48)) = .error .displayRange ∧
      ofValue (.int (10 ^ 1000006 : Nat)) = .error .displayOverflow := by
  intro loss
  have integer : Value.IsInteger loss.toValue (-1) := .checked loss
  have large : Value.IsInteger (.int (10 ^ 48)) (10 ^ 48) := .plain _
  have huge : Value.IsInteger (.int (10 ^ 1000006 : Nat)) (10 ^ 1000006 : Nat) := .plain _
  obtain ⟨returns, _, _, restored⟩ := text_keeps_every_digit.1 _ _ integer
  obtain ⟨s, shown⟩ := returns.mpr (by decide)
  obtain ⟨_, rfl⟩ := text_eq_ok.mp ((ofValue_eq_text integer).symm.trans shown)
  refine ⟨⟨integer, large, huge⟩, ⟨_, shown, (restored _ shown).1, ?_⟩,
    (text_keeps_every_digit.1 _ _ large).2.1 (by decide) ?_,
    (text_keeps_every_digit.1 _ _ huge).2.2.1 ?_⟩
  · have chars : chars (-1) = ['-', '0', '.', '0', '0', '0', '0', '0', '1'] := by
      simp [Quote.chars, Text.digits, Text.places, quoteUnit, quotePlaces]
    rw [chars]
  · have positive := Decimal.pow_ten_pos 999957
    rw [show ((10 ^ 48 : Int)).natAbs = 10 ^ 48 by decide, pow_eq_of_places, digitLimit]
    generalize 10 ^ 999957 = place at positive ⊢
    omega
  · exact overflows_pow

/-- Ten to the 1000006 is an integer of more than 48 digits, and yet the division refuses it, not
the rounding to six places. -/
theorem division_refuses_first :
    Value.IsInteger (.int (10 ^ 1000006 : Nat)) (10 ^ 1000006 : Nat) ∧
      ¬ ((10 ^ 1000006 : Nat) : Int).natAbs < 10 ^ 48 ∧
      ofValue (.int (10 ^ 1000006 : Nat)) ≠ .error .displayRange := by
  have large := overflows_pow.limit_le
  have shown : ofValue (.int (10 ^ 1000006 : Nat)) = .error .displayOverflow := by
    rw [ofValue_eq_text (.plain _), text_eq, if_neg (Nat.not_lt.mpr large), if_pos overflows_pow]
  refine ⟨.plain _, Nat.not_lt.mpr large, ?_⟩
  rw [shown]
  exact nofun

end Quote
end ExchangeFees

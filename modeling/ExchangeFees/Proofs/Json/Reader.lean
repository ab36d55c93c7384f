import ExchangeFees.Json.Reader
import ExchangeFees.Proofs.Text.Codes
import ExchangeFees.Proofs.Text.Decimal

/-! What the readers take off the front of a text. A string of plain characters is read as it
stands, an integer that can be written in decimal as itself, and an object member by member, each
between the blanks that may surround it. -/
namespace ExchangeFees.Json

open DecimalNumeral

/-- A reader takes a value off the front of its text and leaves the rest. -/
def Takes {α : Type} {cs : List Char} (read : Except Stop (Parsed cs α)) (value : α)
    (rest : List Char) : Prop :=
  ∃ p, read = .ok p ∧ p.value = value ∧ p.rest = rest

/-- A character that stands for itself between the quotes of a string. -/
structure IsPlain (c : Char) : Prop where
  quote : c ≠ '"'
  backslash : c ≠ '\\'
  visible : 0x20 ≤ c.toNat
  unmarked : c ≠ Text.mark

instance : DecidablePred IsPlain := fun c =>
  decidable_of_iff (c ≠ '"' ∧ c ≠ '\\' ∧ 0x20 ≤ c.toNat ∧ c ≠ Text.mark)
    ⟨fun ⟨quote, backslash, visible, unmarked⟩ => ⟨quote, backslash, visible, unmarked⟩,
      fun ⟨quote, backslash, visible, unmarked⟩ => ⟨quote, backslash, visible, unmarked⟩⟩

/-- A text that stands for itself between the quotes of a string. -/
def IsPlainText (text : List Char) : Prop := ∀ c ∈ text, IsPlain c

instance (text : List Char) : Decidable (IsPlainText text) := List.decidableBAll IsPlain text

theorem IsPlain.of_isDigit {c : Char} (digit : c.isDigit = true) : IsPlain c := by
  have low : 48 ≤ c.toNat := by
    simp only [Char.isDigit, Bool.and_eq_true, decide_eq_true_eq] at digit
    exact digit.1
  refine ⟨?_, ?_, by omega, ?_⟩
  all_goals rintro rfl; cases digit

/-- What stands directly after a value: a comma, or the end of the line. -/
def Closes (rest : List Char) : Prop := ∃ c after, rest = c :: after ∧ (c = ',' ∨ c = '\n')

section Strings

variable {text rest : List Char}

theorem readCodes_plain (plain : IsPlainText text) (whole : Nat) (rest : List Char) :
    readCodes whole (text ++ '"' :: rest) = .ok (text.map Char.toNat, rest) := by
  induction text with
  | nil => rw [List.nil_append, readCodes, List.map_nil]
  | cons c text ih =>
    obtain ⟨head, tail⟩ := List.forall_mem_cons.mp plain
    rw [List.cons_append, readCodes]
    · rw [if_neg (Nat.not_lt.mpr head.visible), ih tail]
      rfl
    -- The other patterns begin with a quote or a backslash.
    all_goals simp [head.quote, head.backslash]

/-- The codes of characters hold no pair of surrogates. -/
theorem joinPairs_toNat (text : List Char) :
    joinPairs (text.map Char.toNat) = text.map Char.toNat := by
  induction text with
  | nil => rfl
  | cons c text ih =>
    cases text with
    | nil => rfl
    | cons d text =>
      have outside := Text.isHalf_toNat c
      simp only [Text.isHalf, Bool.and_eq_false_iff, decide_eq_false_iff_not] at outside
      rw [List.map_cons, List.map_cons, joinPairs, if_neg]
      · exact congrArg (c.toNat :: ·) ih
      · simp only [Bool.and_eq_true, decide_eq_true_eq]
        omega

theorem readString_plain {s : String} (plain : IsPlainText s.toList) (rest : List Char) :
    Takes (readString (s.toList ++ '"' :: rest)) s rest := by
  have codes := readCodes_plain plain ((s.toList ++ '"' :: rest).length + 1) rest
  unfold readString
  split
  · rename_i stop failed
    cases codes.symm.trans failed
  · rename_i r read
    cases codes.symm.trans read
    have unmarked : Text.mark ∉ s.toList := fun member => (plain _ member).unmarked rfl
    exact ⟨_, rfl, by rw [joinPairs_toNat, Text.ofCodes_toNat unmarked, String.ofList_toList], rfl⟩

theorem readValue_string {s : String} (room : Nat) (taken : Takes (readString rest) s text) :
    Takes (readValue room ('"' :: rest)) (.text s) text := by
  obtain ⟨p, read, rfl, rfl⟩ := taken
  rw [readValue, read]
  exact ⟨_, rfl, rfl, rfl⟩

end Strings

section Numbers

variable {rest : List Char}

theorem Closes.stops (closes : Closes rest) : ∀ c, rest.head? = some c → c.isDigit = false := by
  obtain ⟨_, _, rfl, rfl | rfl⟩ := closes
  all_goals simp

theorem spanWhole_digits (n : Nat) (closes : Closes rest) :
    spanWhole (Text.digits n ++ rest) = (Text.digits n, rest) := by
  unfold spanWhole
  split
  · rename_i after same
    have head := congrArg List.head? same
    rw [List.head?_append_of_ne_nil _ (Text.digits_ne_nil n), List.head?_cons] at head
    obtain rfl := (Text.head?_digits_eq_zero n).mp head
    rw [show Text.digits 0 = ['0'] by rw [Text.digits]; rfl] at same ⊢
    cases same
    rfl
  · exact spanDigits_append (Text.isDigit_digits n) closes.stops

/-- A number without fraction and exponent is an integer. -/
theorem readNumber_digits {n : Nat} (cs : List Char)
    (unsigned : (if cs.head? = some '-' then cs.tail else cs) = Text.digits n ++ rest)
    (few : (Text.digits n).length ≤ Text.digitLimit) (closes : Closes rest) :
    Takes (readNumber cs) (.int (if cs.head? = some '-' then -(n : Int) else n)) rest := by
  have whole := spanWhole_digits n closes
  have fraction : spanFraction rest = ([], rest) := by
    obtain ⟨_, _, rfl, rfl | rfl⟩ := closes <;> rfl
  have exponent : spanExponent rest = (none, rest) := by
    obtain ⟨_, _, rfl, rfl | rfl⟩ := closes <;> rfl
  have shorter : rest.length < cs.length := by
    have digits := List.length_pos_of_ne_nil (Text.digits_ne_nil n)
    have lengths := congrArg List.length unsigned
    rw [List.length_append] at lengths
    split at lengths
    · rw [List.length_tail] at lengths
      omega
    · omega
  unfold readNumber
  simp only [unsigned, whole, fraction, exponent]
  rw [dif_pos ⟨shorter, Text.digits_ne_nil n⟩]
  simp only [decide_true, Bool.and_self, if_true, readWhole, if_neg (Nat.not_lt.mpr few)]
  exact ⟨_, rfl, by simp, rfl⟩

/-- An integer begins with a digit, or with a minus before a digit. -/
theorem ofInt_begins (n : Int) (rest : List Char) :
    ∃ c after, Text.ofInt n ++ rest = c :: after ∧
      (c.isDigit = true ∨ c = '-' ∧ ∃ d others, after = d :: others ∧ d.isDigit = true) := by
  obtain ⟨d, others, split⟩ := List.exists_cons_of_ne_nil (Text.digits_ne_nil n.natAbs)
  have digit := Text.isDigit_digits n.natAbs d (split ▸ List.mem_cons_self)
  by_cases negative : n < 0
  · exact ⟨'-', d :: others ++ rest, by simp [Text.ofInt, negative, split],
      .inr ⟨rfl, d, others ++ rest, rfl, digit⟩⟩
  · exact ⟨d, others ++ rest, by simp [Text.ofInt, negative, split], .inl digit⟩

theorem not_isBlank_of_isDigit {c : Char} (digit : c.isDigit = true) : ¬ isBlank c = true := by
  intro blank
  simp only [isBlank, Bool.or_eq_true, decide_eq_true_eq] at blank
  obtain ((rfl | rfl) | rfl) | rfl := blank
  all_goals cases digit

theorem skipBlanks_ofInt (n : Int) (rest : List Char) :
    skipBlanks (Text.ofInt n ++ rest) = Text.ofInt n ++ rest := by
  obtain ⟨c, after, split, begins⟩ := ofInt_begins n rest
  have visible : ¬ isBlank c = true := by
    obtain digit | ⟨rfl, _⟩ := begins
    · exact not_isBlank_of_isDigit digit
    · decide
  rw [split, skipBlanks, List.dropWhile_cons_of_neg visible]

theorem readNumber_ofInt {n : Int} (short : Text.IsShort n) (closes : Closes rest) :
    Takes (readNumber (Text.ofInt n ++ rest)) (.int n) rest := by
  have few := Text.isShort_iff_length.mp short
  by_cases negative : n < 0
  · have signed : Text.ofInt n = '-' :: Text.digits n.natAbs := by simp [Text.ofInt, negative]
    have taken := readNumber_digits ('-' :: (Text.digits n.natAbs ++ rest)) rfl few closes
    rw [List.head?_cons, if_pos rfl, show -(n.natAbs : Int) = n by omega] at taken
    rwa [signed]
  · have unsigned : Text.ofInt n = Text.digits n.natAbs := by simp [Text.ofInt, negative]
    have head : (Text.digits n.natAbs ++ rest).head? ≠ some '-' := by
      rw [List.head?_append_of_ne_nil _ (Text.digits_ne_nil _)]
      intro minus
      cases Text.isDigit_digits _ _ (List.mem_of_mem_head? minus)
    have taken := readNumber_digits (Text.digits n.natAbs ++ rest) (if_neg head) few closes
    rw [if_neg head, show (n.natAbs : Int) = n by omega] at taken
    rwa [unsigned]

/-- No other value begins like an integer. -/
theorem readValue_ofInt (room : Nat) {n : Int} (short : Text.IsShort n) (closes : Closes rest) :
    Takes (readValue room (Text.ofInt n ++ rest)) (.int n) rest := by
  obtain ⟨c, after, split, begins⟩ := ofInt_begins n rest
  rw [readValue]
  · exact readNumber_ofInt short closes
  all_goals
    rw [split]
    rintro _ ⟨⟩
    obtain ⟨⟨⟩⟩ | ⟨⟨⟩, _, _, ⟨⟩, ⟨⟩⟩ := begins

end Numbers

section Members

variable {rest afterName afterColon afterValue afterComma after cs : List Char} {name : String}
  {room : Nat} {value : Json} {seen members : List (String × Json)}

theorem put_of_fresh (fresh : ∀ m ∈ seen, m.1 ≠ name) (value : Json) :
    put name value seen = seen ++ [(name, value)] := by
  induction seen with
  | nil => rfl
  | cons m rest ih =>
    obtain ⟨other, others⟩ := List.forall_mem_cons.mp fresh
    rw [put, if_neg other, ih others, List.cons_append]

/-- The last member of an object. -/
theorem readMembers_last (named : Takes (readString rest) name afterName)
    (colon : skipBlanks afterName = ':' :: afterColon)
    (valued : Takes (readValue room (skipBlanks afterColon)) value afterValue)
    (closed : skipBlanks afterValue = '}' :: after) :
    Takes (readMembers room seen ('"' :: rest)) (put name value seen) after := by
  obtain ⟨n, readName, rfl, rfl⟩ := named
  obtain ⟨v, readV, rfl, rfl⟩ := valued
  rw [readMembers, readName]
  simp only [bind, Except.bind]
  split
  · rename_i _ found
    cases colon.symm.trans found
    simp only [readV]
    split
    · rename_i _ found
      cases closed.symm.trans found
      exact ⟨_, rfl, rfl, rfl⟩
    · rename_i _ found
      cases closed.symm.trans found
    · rename_i other _
      exact absurd closed (other _)
  · rename_i other
    exact absurd colon (other _)

/-- A member of an object with others after it. -/
theorem readMembers_more (named : Takes (readString rest) name afterName)
    (colon : skipBlanks afterName = ':' :: afterColon)
    (valued : Takes (readValue room (skipBlanks afterColon)) value afterValue)
    (comma : skipBlanks afterValue = ',' :: afterComma)
    (others :
      Takes (readMembers room (put name value seen) (skipBlanks afterComma)) members after) :
    Takes (readMembers room seen ('"' :: rest)) members after := by
  obtain ⟨n, readName, rfl, rfl⟩ := named
  obtain ⟨v, readV, rfl, rfl⟩ := valued
  obtain ⟨m, readOthers, rfl, rfl⟩ := others
  rw [readMembers, readName]
  simp only [bind, Except.bind]
  split
  · rename_i _ found
    cases colon.symm.trans found
    simp only [readV]
    split
    · rename_i _ found
      cases comma.symm.trans found
    · rename_i _ found
      cases comma.symm.trans found
      simp only [readOthers]
      exact ⟨_, rfl, rfl, rfl⟩
    · rename_i _ other
      exact absurd comma (other _)
  · rename_i other
    exact absurd colon (other _)

theorem readValue_object (opened : skipBlanks rest = '"' :: cs)
    (taken : Takes (readMembers room [] ('"' :: cs)) members after) :
    Takes (readValue (room + 1) ('{' :: rest)) (.object members) after := by
  rw [← opened] at taken
  obtain ⟨m, read, rfl, rfl⟩ := taken
  rw [readValue]
  split
  · rename_i _ found
    cases opened.symm.trans found
  · rw [read]
    exact ⟨_, rfl, rfl, rfl⟩

/-- A text holds a value if only blanks stand around it. -/
theorem read_eq_ok {text : List Char} (mark : text.head? ≠ some '\uFEFF')
    (taken : Takes (readValue room (skipBlanks text)) value rest) (blank : skipBlanks rest = []) :
    read room text = .ok value := by
  obtain ⟨v, readV, rfl, rfl⟩ := taken
  unfold read
  rw [if_neg mark]
  simp only [readV, blank]

end Members

end ExchangeFees.Json

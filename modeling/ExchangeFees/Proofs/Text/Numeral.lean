import ExchangeFees.Proofs.Text.Decimal
import ExchangeFees.Text.Numeral
import Mathlib.Data.List.TakeWhile

/-! Numerals are read as what they stand for. Blanks, digits of other scripts and underscores only
add spellings: a text of decimal digits that are not too many, after a minus or nothing, is left as
it is and stands for its own number. Whatever is read from a decimal literal has no more digits than
the literal, and so no more than are written. -/
namespace ExchangeFees.Text

/-- A character that a reader of numerals takes as it stands. -/
structure Stands (c : Char) : Prop where
  notBlank : isBlank c = false
  ascii : toAsciiDigit c = c

theorem stands_minus : Stands '-' := ⟨by decide, by decide⟩

theorem stands_of_isDigit {c : Char} (digit : c.isDigit = true) : Stands c := by
  have all : ∀ d < 10, isBlank (Nat.digitChar d) = false ∧
      toAsciiDigit (Nat.digitChar d) = Nat.digitChar d := by decide
  obtain ⟨d, small, rfl⟩ := exists_digitChar digit
  exact ⟨(all d small).1, (all d small).2⟩

theorem digit?_of_isDigit {c : Char} (digit : c.isDigit = true) :
    digit? c = some (c.toNat - 48) ∧ c.toNat - 48 < 10 ∧ c ≠ '_' := by
  have all : ∀ d < 10, digit? (Nat.digitChar d) = some ((Nat.digitChar d).toNat - 48) ∧
      (Nat.digitChar d).toNat - 48 < 10 ∧ Nat.digitChar d ≠ '_' := by decide
  obtain ⟨d, small, rfl⟩ := exists_digitChar digit
  exact all d small

theorem dropWhile_isBlank {cs : List Char} (stand : ∀ c ∈ cs, Stands c) :
    cs.dropWhile isBlank = cs := by
  cases cs with
  | nil => rfl
  | cons c cs => simp [(stand c List.mem_cons_self).notBlank]

theorem normalize_eq {cs : List Char} (stand : ∀ c ∈ cs, Stands c) : normalize cs = cs := by
  have reversed : ∀ c ∈ cs.reverse, Stands c := fun c member => stand c (List.mem_reverse.mp member)
  rw [normalize, dropWhile_isBlank stand, dropWhile_isBlank reversed, List.reverse_reverse]
  exact (List.map_congr_left fun c member => (stand c member).ascii).trans (List.map_id cs)

section Digits

variable {ds : List Char} (isDigit : ∀ c ∈ ds, c.isDigit = true)

include isDigit

theorem moreDigits?_digits (v : Nat) :
    moreDigits? 10 v ds = some (ds.foldl (fun n d => 10 * n + (d.toNat - 48)) v) := by
  induction ds generalizing v with
  | nil => rfl
  | cons c ds ih =>
    obtain ⟨first, rest⟩ := List.forall_mem_cons.mp isDigit
    obtain ⟨value, small, plain⟩ := digit?_of_isDigit first
    rw [moreDigits?]
    · simp only [value, Option.bind_eq_bind, Option.bind_some, if_pos small]
      rw [ih rest, List.foldl_cons, Nat.mul_comm]
    · exact fun _ _ underscore _ => plain underscore

theorem digits?_digits (nonempty : ds ≠ []) : digits? 10 ds = some (natOfDigits ds) := by
  cases ds with
  | nil => exact absurd rfl nonempty
  | cons c ds =>
    obtain ⟨first, rest⟩ := List.forall_mem_cons.mp isDigit
    obtain ⟨value, small, _⟩ := digit?_of_isDigit first
    simp only [digits?, value, Option.bind_eq_bind, Option.bind_some, if_pos small]
    rw [moreDigits?_digits rest, natOfDigits, List.foldl_cons, Nat.mul_zero, Nat.zero_add]

theorem readDecimal_digits (nonempty : ds ≠ []) (few : ds.length ≤ digitLimit) :
    readDecimal ds = .ok (natOfDigits ds) := by
  have count : (ds.takeWhile fun c => c.isDigit || c = '_').countP Char.isDigit ≤ digitLimit :=
    Nat.le_trans List.countP_le_length
      (Nat.le_trans (List.takeWhile_sublist _).length_le few)
  simp only [readDecimal, Nat.not_lt.mpr count, decide_false, Bool.and_false, Bool.false_eq_true,
    if_false, digits?_digits isDigit nonempty, orMalformed]

/-- Without a sign in front an unsigned numeral is read as it is. -/
theorem readSigned_digits {readUnsigned : List Char → Except LiteralFault Nat} {n : Nat}
    (read : readUnsigned ds = .ok n) : readSigned readUnsigned ds = .ok (n : Int) := by
  rw [readSigned]
  · rw [read]
    rfl
  · rintro _ rfl
    cases isDigit '-' List.mem_cons_self
  · rintro _ rfl
    cases isDigit '+' List.mem_cons_self

/-- Digits stand for their number, and after a minus for its negation. -/
theorem integer?_digits (nonempty : ds ≠ []) (few : ds.length ≤ digitLimit) (negative : Prop)
    [Decidable negative] :
    integer? (String.ofList ((if negative then ['-'] else []) ++ ds)) =
      some (if negative then -(natOfDigits ds : Int) else natOfDigits ds) := by
  have stand : ∀ c ∈ (if negative then ['-'] else []) ++ ds, Stands c := by
    intro c member
    obtain sign | digit := List.mem_append.mp member
    · split at sign
      · rw [List.mem_singleton.mp sign]
        exact stands_minus
      · cases sign
    · exact stands_of_isDigit (isDigit c digit)
  have read := readDecimal_digits isDigit nonempty few
  rw [integer?, readInteger, String.toList_ofList, normalize_eq stand]
  split
  · simp only [List.singleton_append, readSigned, read]
    rfl
  · rw [List.nil_append, readSigned_digits isDigit read]
    rfl

end Digits

section Limit

variable {c : Char} {cs : List Char} {v n : Nat}

theorem isDigit_of_digit? {d : Nat} (digit : digit? c = some d) (small : d < 10) :
    c.isDigit = true := by
  unfold digit? at digit
  split at digit
  · rename_i low
    simpa [Char.isDigit, Char.le_def] using low
  · split at digit
    · simp only [Option.some.injEq] at digit
      omega
    · split at digit
      · simp only [Option.some.injEq] at digit
        omega
      · cases digit

/-- What is left of a literal after its first digit. -/
structure Continues (cs : List Char) : Prop where
  spaced : ∀ c : Char, c.isDigit = true → areSpaced (c :: cs) = true
  taken : ∀ c ∈ cs, (c.isDigit || c = '_') = true

theorem Continues.nil : Continues [] := ⟨fun _ digit => digit, List.forall_mem_nil _⟩

theorem Continues.cons {c : Char} (digit : c.isDigit = true) (rest : Continues cs) :
    Continues (c :: cs) := by
  have plain : c ≠ '_' := by
    rintro rfl
    cases digit
  refine ⟨fun first isDigit => ?_, List.forall_mem_cons.mpr ⟨by simp [digit], rest.taken⟩⟩
  rw [areSpaced]
  · simp [isDigit, rest.spaced c digit]
  · simp
  · rintro _ ⟨⟩
    exact plain rfl

theorem Continues.spacer {c : Char} (digit : c.isDigit = true) (rest : Continues cs) :
    Continues ('_' :: c :: cs) := by
  refine ⟨fun first isDigit => ?_, ?_⟩
  · simp [areSpaced, isDigit, rest.spaced c digit]
  · refine List.forall_mem_cons.mpr ⟨rfl, List.forall_mem_cons.mpr ⟨by simp [digit], rest.taken⟩⟩

/-- The digits after a first one are spaced, and each of them adds one place. -/
theorem moreDigits?_ten (read : moreDigits? 10 v cs = some n) :
    Continues cs ∧ n < (v + 1) * 10 ^ cs.countP Char.isDigit := by
  fun_induction moreDigits? 10 v cs with
  | case1 v =>
    cases read
    exact ⟨.nil, by simp⟩
  | case2 v c rest ih =>
    simp only [Option.bind_eq_bind, Option.bind_eq_some_iff] at read
    obtain ⟨d, value, read⟩ := read
    split at read
    · rename_i small
      have digit := isDigit_of_digit? value small
      obtain ⟨continues, bound⟩ := ih d read
      refine ⟨continues.spacer digit, Nat.lt_of_lt_of_le bound ?_⟩
      rw [List.countP_cons_of_neg (by decide), List.countP_cons_of_pos digit, Nat.pow_succ,
        Nat.mul_comm (10 ^ _) 10, ← Nat.mul_assoc]
      exact Nat.mul_le_mul_right _ (by omega)
    · cases read
  | case3 v c rest _ ih =>
    simp only [Option.bind_eq_bind, Option.bind_eq_some_iff] at read
    obtain ⟨d, value, read⟩ := read
    split at read
    · rename_i small
      have digit := isDigit_of_digit? value small
      obtain ⟨continues, bound⟩ := ih d read
      refine ⟨continues.cons digit, Nat.lt_of_lt_of_le bound ?_⟩
      rw [List.countP_cons_of_pos digit, Nat.pow_succ, Nat.mul_comm (10 ^ _) 10, ← Nat.mul_assoc]
      exact Nat.mul_le_mul_right _ (by omega)
    · cases read

/-- What is read from a decimal literal has no more digits than are read. -/
theorem lt_of_readDecimal (read : readDecimal cs = .ok n) : n < 10 ^ digitLimit := by
  simp only [readDecimal] at read
  split at read
  · cases read
  · rename_i short
    cases digits : digits? 10 cs with
    | none => simp [digits, orMalformed] at read
    | some m =>
      obtain rfl : m = n := by simpa [digits, orMalformed] using read
      cases cs with
      | nil => cases digits
      | cons c rest =>
        simp only [digits?, Option.bind_eq_bind, Option.bind_eq_some_iff] at digits
        obtain ⟨d, value, digits⟩ := digits
        split at digits
        · rename_i small
          have digit := isDigit_of_digit? value small
          obtain ⟨continues, bound⟩ := moreDigits?_ten digits
          have run : (c :: rest).takeWhile (fun c => c.isDigit || c = '_') = c :: rest :=
            List.takeWhile_eq_self_iff.mpr
              (List.forall_mem_cons.mpr ⟨by simp [digit], continues.taken⟩)
          rw [run, continues.spaced c digit, Bool.true_and, decide_eq_true_eq, Nat.not_lt,
            List.countP_cons_of_pos digit] at short
          refine Nat.lt_of_lt_of_le bound (Nat.le_trans ?_ (Nat.pow_le_pow_right (by decide) short))
          rw [Nat.pow_succ, Nat.mul_comm]
          exact Nat.mul_le_mul_left _ (by omega)
        · cases digits

theorem isShort_of_readSigned {i : Int} (read : readSigned readDecimal cs = .ok i) :
    IsShort i := by
  have short {cs : List Char} {sign : Nat → Int} (same : ∀ n, (sign n).natAbs = n)
      (read : sign <$> readDecimal cs = .ok i) : IsShort i := by
    cases taken : readDecimal cs with
    | error fault => simp [taken] at read
    | ok n =>
      obtain rfl : sign n = i := by simpa [taken] using read
      rw [IsShort, same]
      exact lt_of_readDecimal taken
  unfold readSigned at read
  split at read
  · exact short (fun n => by rw [Int.natAbs_neg, Int.natAbs_natCast]) read
  · exact short Int.natAbs_natCast read
  · exact short Int.natAbs_natCast read

/-- An integer that is read in decimal can be written. -/
theorem isShort_of_integer? {s : String} {i : Int} (read : integer? s = some i) : IsShort i := by
  unfold integer? at read
  cases literal : readInteger s with
  | error fault => simp [literal, Except.toOption] at read
  | ok m =>
    obtain rfl : m = i := by simpa [literal, Except.toOption] using read
    exact isShort_of_readSigned literal

end Limit

end ExchangeFees.Text

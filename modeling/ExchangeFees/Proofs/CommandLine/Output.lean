import ExchangeFees.CommandLine.Response
import ExchangeFees.Proofs.Checked.Results
import ExchangeFees.Proofs.Json.Reader
import ExchangeFees.Proofs.Quote

/-! The printed object is read back. It holds a line for each member, so a reader that stands at the
first line takes the members off one by one and finds them in the order in which they were
printed. -/
namespace ExchangeFees

open Json

namespace CommandLine

/-- What a printed value is in JSON. -/
inductive Prints : Value → Json → Prop
  | int {n : Int} (short : Text.IsShort n) : Prints (.int n) (.int n)
  | text {s : String} (plain : IsPlainText s.toList) : Prints (.text s) (.text s)

/-- What a printed member is in JSON. -/
structure PrintsMember (e : String × Value) (m : String × Json) : Prop where
  name : m.1 = e.1
  plain : IsPlainText e.1.toList
  value : Prints e.2 m.2

/-- The line of a member, up to the comma or the end of the line that closes it. -/
def memberLine (e : String × Value) : List Char :=
  ' ' :: ' ' :: '"' :: (e.1.toList ++ '"' :: ':' :: ' ' :: (printed e.2).toList)

/-- What stands after the opening brace and the end of its line. -/
def memberLines (entries : Entries) : List Char :=
  [',', '\n'].intercalate (entries.map memberLine) ++ ['\n', '}', '\n']

theorem toList_printObject (entries : Entries) :
    (printObject entries).toList = '{' :: '\n' :: memberLines entries := by
  have lines : (entries.map fun e => "  \"" ++ e.1 ++ "\": " ++ printed e.2).map String.toList =
      entries.map memberLine := by
    rw [List.map_map]
    refine List.map_congr_left fun e _ => ?_
    simp [memberLine]
  simp only [printObject, memberLines, String.toList_append, String.toList_intercalate, lines]
  rfl

section Members

variable {e : String × Value} {m : String × Json} {members seen : List (String × Json)}
  {entries : Entries} {rest : List Char} {room : Nat}

theorem Prints.taken {x : Value} {j : Json} (prints : Prints x j) (closes : Closes rest) :
    Takes (readValue room (skipBlanks (' ' :: ((printed x).toList ++ rest)))) j rest := by
  cases prints with
  | @int n short =>
    have start : skipBlanks (' ' :: ((printed (.int n)).toList ++ rest)) =
        Text.ofInt n ++ rest := by
      rw [printed, String.toList_ofList]
      exact skipBlanks_ofInt n rest
    rw [start]
    exact readValue_ofInt room short closes
  | @text s plain =>
    have start : skipBlanks (' ' :: ((printed (.text s)).toList ++ rest)) =
        '"' :: (s.toList ++ '"' :: rest) := by
      simp [printed, skipBlanks, isBlank]
    rw [start]
    exact readValue_string room (readString_plain plain rest)

theorem memberLines_singleton (e : String × Value) :
    memberLines [e] = memberLine e ++ ['\n', '}', '\n'] := by
  rw [memberLines, List.map_singleton, List.intercalate_singleton]

theorem memberLines_cons_cons (e e' : String × Value) (entries : Entries) :
    memberLines (e :: e' :: entries) =
      memberLine e ++ ',' :: '\n' :: memberLines (e' :: entries) := by
  simp [memberLines, List.intercalate_cons_cons]

theorem skipBlanks_memberLine (e : String × Value) (rest : List Char) :
    skipBlanks (memberLine e ++ rest) =
      '"' :: (e.1.toList ++ '"' :: ':' :: ' ' :: ((printed e.2).toList ++ rest)) := by
  simp [memberLine, skipBlanks, isBlank]

/-- Read from the first line on, the members come after those that were read before. -/
theorem readMembers_lines (printed : List.Forall₂ PrintsMember entries members)
    (nonempty : entries ≠ [])
    (distinct : (seen ++ members).Pairwise fun m n => m.1 ≠ n.1) :
    Takes (readMembers room seen (skipBlanks (memberLines entries))) (seen ++ members) ['\n'] := by
  -- Over the lines; what was read before grows by the member of each.
  induction printed generalizing seen with
  | nil => exact absurd rfl nonempty
  | @cons e m entries members prints others ih =>
    obtain ⟨name, value⟩ := m
    obtain ⟨rfl, plain, valued⟩ := prints
    have fresh : ∀ m ∈ seen, m.1 ≠ e.1 := fun m member =>
      (List.pairwise_append.mp distinct).2.2 m member _ List.mem_cons_self
    have put : put e.1 value seen = seen ++ [(e.1, value)] := put_of_fresh fresh value
    have named := readString_plain plain
    rw [List.append_cons] at distinct ⊢
    -- The last line is closed by the brace, every other one by a comma.
    cases others with
    | nil =>
      rw [memberLines_singleton, skipBlanks_memberLine, List.append_nil, ← put]
      exact readMembers_last (named _) rfl (valued.taken ⟨_, _, rfl, .inr rfl⟩) rfl
    | cons second others =>
      have rest := ih (List.cons_ne_nil _ _) distinct
      rw [memberLines_cons_cons, skipBlanks_memberLine]
      rw [← put] at rest ⊢
      exact readMembers_more (named _) rfl (valued.taken ⟨_, _, rfl, .inl rfl⟩) rfl rest

end Members

/-- The printed object is read back with its members in order, wherever there is room for it. -/
theorem read_printObject (room : Nat) {entries : Entries} {members : List (String × Json)}
    (prints : List.Forall₂ PrintsMember entries members) (nonempty : entries ≠ [])
    (distinct : members.Pairwise fun m n => m.1 ≠ n.1) :
    Json.read (room + 1) (printObject entries).toList = .ok (.object members) := by
  have taken : Takes (readMembers room [] (skipBlanks (memberLines entries))) members ['\n'] :=
    readMembers_lines prints nonempty distinct
  obtain ⟨cs, opened⟩ : ∃ cs, skipBlanks (memberLines entries) = '"' :: cs := by
    match entries, nonempty with
    | [e], _ => exact ⟨_, by rw [memberLines_singleton, skipBlanks_memberLine]⟩
    | e :: e' :: rest, _ => exact ⟨_, by rw [memberLines_cons_cons, skipBlanks_memberLine]⟩
  rw [opened] at taken
  rw [toList_printObject]
  exact read_eq_ok (by simp) (readValue_object opened taken) rfl

/-- A field of a record as a member of the printed object: its integer, or in quote units a text
that denotes it. -/
inductive ShownAs : Bool → String × Value → String × Json → Prop
  | units (name : String) (n : Int) : ShownAs false (name, .int n) (name, .int n)
  | quote (name : String) {n : Int} {s : String}
      (denotes : Text.decimal? s.toList = some ((n : ℚ) / 10 ^ 6)) :
      ShownAs true (name, .int n) (name, .text s)

/-- A field keeps its name. -/
theorem ShownAs.map_fst {inQuote : Bool} {fields : Entries} {members : List (String × Json)}
    (shown : List.Forall₂ (ShownAs inQuote) fields members) :
    members.map Prod.fst = fields.map Prod.fst := by
  induction shown with
  | nil => rfl
  | cons first _ ih =>
    rw [List.map_cons, List.map_cons, ih]
    cases first <;> rfl

theorem isPlainText_chars (n : Int) : IsPlainText (Quote.chars n) := by
  have whole := Text.isDigit_digits (n.natAbs / quoteUnit)
  have places := Text.isDigit_places quotePlaces n.natAbs
  intro c member
  simp only [Quote.chars, List.mem_append, List.mem_cons] at member
  obtain (sign | digit) | rfl | digit := member
  · split at sign
    · rw [List.mem_singleton.mp sign]
      decide
    · cases sign
  · exact .of_isDigit (whole c digit)
  · decide
  · exact .of_isDigit (places c digit)

/-- A field that is shown has a plain name and holds an integer of no more digits than are shown. -/
structure IsShown (e : String × Value) : Prop where
  plain : IsPlainText e.1.toList
  integer : ∃ n : Int, e.2 = .int n ∧ n.natAbs < Quote.limit

/-- Amounts of fields that are shown are printed as JSON that shows them. -/
theorem exists_amounts {r : Record} (shown : ∀ e ∈ r.fields, IsShown e) (inQuote : Bool) :
    ∃ amounts members, (Value.record r).amounts inQuote = .ok amounts ∧
      List.Forall₂ PrintsMember amounts members ∧
      List.Forall₂ (ShownAs inQuote) r.fields members := by
  refine exists_mapM_forall₂ ?_
  rintro ⟨name, x⟩ member
  obtain ⟨plain, n, rfl, small⟩ := shown _ member
  cases inQuote with
  | false =>
    have short : Text.IsShort n := Text.isShort_of_lt small (Text.le_digitLimit (by decide))
    exact ⟨_, _, rfl, ⟨rfl, plain, .int short⟩, .units name n⟩
  | true =>
    have text : Quote.ofValue (.int n) = .ok (String.ofList (Quote.chars n)) :=
      (Quote.text_eq n).trans (if_pos small)
    have chars : IsPlainText (String.ofList (Quote.chars n)).toList := by
      rw [String.toList_ofList]
      exact isPlainText_chars n
    have denotes : Text.decimal? (String.ofList (Quote.chars n)).toList =
        some ((n : ℚ) / 10 ^ 6) := by
      rw [String.toList_ofList]
      exact Quote.decimal?_chars n
    simp only [text]
    exact ⟨_, _, rfl, ⟨rfl, plain, .text chars⟩, .quote name denotes⟩

end CommandLine
end ExchangeFees

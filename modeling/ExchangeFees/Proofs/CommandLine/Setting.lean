import ExchangeFees.CommandLine.Parser
import ExchangeFees.Proofs.Checked.Results
import ExchangeFees.Proofs.Text.Numeral

/-! What a command line sets. A command line that is read sets what its command cannot do without,
and every amount and time that it sets can be written, since each was read in decimal or is zero. -/
namespace ExchangeFees.CommandLine

variable {words : List String} {c : Command} {a b : Settings} {s : Setting}

theorem Command.unset_of_read {taken : Settings × List String}
    (read : c.read words = .ok taken) : taken.1.unset c = [] := by
  simp only [Command.read, bind_eq_ok] at read
  obtain ⟨_, _, _, _, done⟩ := read
  split at done
  · rename_i complete
    cases done
    exact complete
  · cases done

theorem exists_read_of_parse (parsed : parse words = .ok (c, a)) :
    ∃ rest more, c.read rest = .ok (a, more) := by
  simp only [parse, bind_eq_ok, mapError_eq_ok] at parsed
  obtain ⟨⟨passed, fromCommand⟩, _, parsed⟩ := parsed
  cases fromCommand with
  | nil => cases parsed
  | cons word rest =>
    simp only [bind_eq_ok, mapError_eq_ok] at parsed
    obtain ⟨command, _, ⟨settings, more⟩, read, parsed⟩ := parsed
    simp only at parsed
    split at parsed
    · cases parsed
      exact ⟨rest, more, read⟩
    · cases parsed

/-- A command line that is read sets what its command cannot do without. -/
theorem unset_of_parse (parsed : parse words = .ok (c, a)) : a.unset c = [] := by
  obtain ⟨_, _, read⟩ := exists_read_of_parse parsed
  exact Command.unset_of_read read

namespace Settings

theorem given_of_unset (complete : a.unset c = []) :
    (∃ amount, a.quoteAmount = some amount) ∧ (c = .venue → ∃ fee, a.venueFee = some fee) := by
  obtain ⟨quoteAmount, venueFee⟩ := List.append_eq_nil_iff.mp complete
  constructor
  · cases given : a.quoteAmount with
    | none => simp [given] at quoteAmount
    | some amount => exact ⟨amount, rfl⟩
  · rintro rfl
    cases given : a.venueFee with
    | none => simp [given] at venueFee
    | some fee => exact ⟨fee, rfl⟩

/-- The amounts and times that are set. The mask is none of them. -/
def amounts (a : Settings) : List Int :=
  a.quoteAmount.toList ++ a.venueFee.toList ++
    [a.orderTs, a.now, a.surplus, a.referrerRebate, a.feePool]

/-- Every amount and time that is set can be written. -/
def Short (a : Settings) : Prop := ∀ n ∈ a.amounts, Text.IsShort n

theorem short_default : Short {} := by
  intro n member
  obtain rfl : n = 0 := by simpa [amounts] using member
  exact Width.u128.holds_zero.isShort

theorem Short.turnOn (short : a.Short) (s : Setting) : (a.turnOn s).Short := by
  have same : (a.turnOn s).amounts = a.amounts := by cases s <;> rfl
  rw [Short, same]
  exact short

theorem mem_amounts_setInteger {n m : Int} (member : m ∈ (a.setInteger n s).amounts) :
    m ∈ a.amounts ∨ m = n ∧ s.form = .integer := by
  cases s <;> simp only [amounts, setInteger, Setting.form, List.mem_append, List.mem_cons] at * <;>
    grind

theorem Short.give {word : String} (short : a.Short) (given : a.give s word = .ok b) : b.Short := by
  unfold Settings.give at given
  dsimp only at given
  split at given
  · cases given
    exact short.turnOn s
  · split at given
    · rename_i n read
      cases given
      intro m member
      obtain before | ⟨rfl, _⟩ := mem_amounts_setInteger member
      · exact short m before
      · exact Text.isShort_of_integer? read
    · cases given
  · rename_i form
    split at given
    · cases given
      intro m member
      obtain before | ⟨_, decimal⟩ := mem_amounts_setInteger member
      · exact short m before
      · cases form.symm.trans decimal
    · cases given
  · cases given
    exact short

theorem Short.take {words : List (String × Word)} {passed : List String} (short : a.Short)
    (taken : take a words = .ok (b, passed)) : b.Short := by
  -- The cases in which words are refused end at once.
  fun_induction CommandLine.take a words generalizing passed with
  | case1 =>
    cases taken
    exact short
  | case2 | case4 | case7 => cases taken
  | case3 _ _ _ _ _ _ ih | case6 _ _ _ _ _ _ _ ih =>
    obtain ⟨next, given, rest⟩ := bind_eq_ok.mp taken
    exact ih next (short.give given) rest
  | case5 _ _ s _ _ _ ih => exact ih (short.turnOn s) taken
  | case8 _ _ _ _ _ _ ih =>
    obtain ⟨⟨next, others⟩, rest, same⟩ := bind_eq_ok.mp taken
    cases same
    exact ih short rest

end Settings

/-- The amounts and times of a command line that is read can be written. -/
theorem short_of_parse (parsed : parse words = .ok (c, a)) : a.Short := by
  obtain ⟨rest, _, read⟩ := exists_read_of_parse parsed
  simp only [Command.read, bind_eq_ok] at read
  obtain ⟨classified, _, taken, took, done⟩ := read
  split at done
  · cases done
    exact Settings.short_default.take took
  · cases done

end ExchangeFees.CommandLine

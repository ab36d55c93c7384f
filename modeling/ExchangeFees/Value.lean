import ExchangeFees.Breakdown
import ExchangeFees.Schedule

/-!
Values as callers hand them in: plain data, records, and the classes of records. A term of a fee
schedule is a plain integer in the range of an amount, any record or any class of records; a record
is a checked integer, a schedule or one of its sections, or a fee breakdown. Two terms are equal
when they are the same kind and hold the same, so a plain integer differs from a checked integer of
the same value. Records and classes other than those of this library are left out.
-/
namespace ExchangeFees

mutual

inductive Term where
  | plain (n : U128)
  | record (r : Record)
  | type (c : RecordClass)

inductive Record where
  | checked (w : Width) (n : Checked w)
  | schedule (s : FeeSchedule Term)
  | referral (t : ReferralTerms Term)
  | filler (t : FillerTerms Term)
  | fill (b : FillBreakdown)
  | venueFill (b : VenueBreakdown)

end

/-- A value. A mapping's entries are in the order in which their keys first came. -/
inductive Value where
  | none
  | bool (b : Bool)
  | int (n : Int)
  | float (x : Binary64)
  | text (s : String)
  | list (items : List Value)
  | mapping (entries : List (String × Value))
  | record (r : Record)
  | type (c : RecordClass)

abbrev Entries := List (String × Value)

abbrev Schedule := FeeSchedule Term

def Term.toValue : Term → Value
  | plain n => .int n.val
  | record r => .record r
  | type c => .type c

def Record.kind : Record → Kind
  | checked w _ => .checked w
  | schedule _ => .record .schedule
  | referral _ => .record .referral
  | filler _ => .record .filler
  | fill _ => .record .fill
  | venueFill _ => .record .venueFill

def Value.kind : Value → Kind
  | none => .none
  | bool _ => .bool
  | int _ => .int
  | float _ => .float
  | text _ => .text
  | list _ => .list
  | mapping _ => .mapping
  | record r => r.kind
  | type _ => .type

mutual

def Term.same : Term → Term → Bool
  | .plain n, .plain m => n = m
  | .record r, .record s => r.same s
  | .type c, .type d => c = d
  | _, _ => false

def Record.same : Record → Record → Bool
  | .checked v n, .checked w m => v = w && n.val = m.val
  | .referral ⟨⟨a, b⟩, ⟨c, d⟩⟩, .referral ⟨⟨a', b'⟩, ⟨c', d'⟩⟩ =>
    a.same a' && b.same b' && c.same c' && d.same d'
  | .filler ⟨⟨a, b⟩, c⟩, .filler ⟨⟨a', b'⟩, c'⟩ => a.same a' && b.same b' && c.same c'
  | .schedule ⟨⟨a, b⟩, ⟨c, d⟩, ⟨⟨e, f⟩, ⟨g, h⟩⟩, ⟨⟨i, j⟩, k⟩⟩,
    .schedule ⟨⟨a', b'⟩, ⟨c', d'⟩, ⟨⟨e', f'⟩, ⟨g', h'⟩⟩, ⟨⟨i', j'⟩, k'⟩⟩ =>
    a.same a' && b.same b' && c.same c' && d.same d' && e.same e' && f.same f' && g.same g' &&
      h.same h' && i.same i' && j.same j' && k.same k'
  | .fill b, .fill c => b = c
  | .venueFill b, .venueFill c => b = c
  | _, _ => false

end

mutual

theorem Term.same_iff (x y : Term) : x.same y = true ↔ x = y := by
  cases x <;> cases y <;> simp [Term.same, Record.same_iff]

theorem Record.same_iff (x y : Record) : x.same y = true ↔ x = y := by
  cases x <;> cases y
  case checked.checked v n w m =>
    simp only [Record.same, Bool.and_eq_true, decide_eq_true_eq, Record.checked.injEq]
    constructor
    · rintro ⟨rfl, h⟩
      exact ⟨rfl, heq_of_eq (Checked.ext h)⟩
    · rintro ⟨rfl, h⟩
      exact ⟨rfl, congrArg _ (eq_of_heq h)⟩
  case schedule.schedule s t =>
    obtain ⟨⟨a, b⟩, ⟨c, d⟩, ⟨⟨e, f⟩, ⟨g, h⟩⟩, ⟨⟨i, j⟩, k⟩⟩ := s
    obtain ⟨⟨_, _⟩, ⟨_, _⟩, ⟨⟨_, _⟩, ⟨_, _⟩⟩, ⟨⟨_, _⟩, _⟩⟩ := t
    simp [Record.same, Term.same_iff, and_assoc]
  case referral.referral s t =>
    obtain ⟨⟨a, b⟩, ⟨c, d⟩⟩ := s
    obtain ⟨⟨_, _⟩, ⟨_, _⟩⟩ := t
    simp [Record.same, Term.same_iff, and_assoc]
  case filler.filler s t =>
    obtain ⟨⟨a, b⟩, c⟩ := s
    obtain ⟨⟨_, _⟩, _⟩ := t
    simp [Record.same, Term.same_iff, and_assoc]
  all_goals simp [Record.same]

end

instance : DecidableEq Term := fun x y => decidable_of_iff _ (Term.same_iff x y)

instance : DecidableEq Record := fun x y => decidable_of_iff _ (Record.same_iff x y)

end ExchangeFees

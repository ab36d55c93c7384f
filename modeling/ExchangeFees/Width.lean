/-!
The widths of checked integers. Two unsigned and two signed widths carry amounts and
timestamps; a fifth, the common base of the others, holds only zero and exists because its
values may meet operands of every width. Bounds are written out as literals: they are the
published limits of each width, and a message that quotes them quotes these digits.
-/
namespace ExchangeFees

/-- A width of checked integer, or the common base of all widths. -/
inductive Width where
  | u64
  | i64
  | u128
  | i128
  | base
  deriving DecidableEq, Repr

namespace Width

def lo : Width → Int
  | u64 => 0
  | i64 => -9223372036854775808
  | u128 => 0
  | i128 => -170141183460469231731687303715884105728
  | base => 0

def hi : Width → Int
  | u64 => 18446744073709551615
  | i64 => 9223372036854775807
  | u128 => 340282366920938463463374607431768211455
  | i128 => 170141183460469231731687303715884105727
  | base => 0

def name : Width → String
  | u64 => "U64"
  | i64 => "I64"
  | u128 => "U128"
  | i128 => "I128"
  | base => "CheckedInt"

/-- Which widths may stand beside a value of width `w`: its own, and beside the base all. -/
def admits (w v : Width) : Bool := w = base || w = v

theorem lo_nonpos (w : Width) : w.lo ≤ 0 := by cases w <;> decide

theorem hi_nonneg (w : Width) : 0 ≤ w.hi := by cases w <;> decide

@[simp] theorem admits_self (w : Width) : w.admits w = true := by simp [admits]

end Width
end ExchangeFees

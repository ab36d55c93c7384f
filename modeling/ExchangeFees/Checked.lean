import ExchangeFees.Root

/-!
Checked integers: an integer with the width that bounds it. Every operation takes the exact result
and keeps it only if it lies within the width; nothing wraps, clamps or loses digits. Division cuts
toward zero. The arithmetic here takes its right operand as an integer that the width has already
accepted, so the result that a failure names is never too long to be written.
-/
namespace ExchangeFees

/-- An integer within the bounds of a width. -/
structure Checked (w : Width) where
  val : Int
  lo_le : w.lo ≤ val
  le_hi : val ≤ w.hi
  deriving DecidableEq

/-- Amounts, fees, rewards and ratio terms. -/
abbrev U128 := Checked .u128

/-- Timestamps, in ticks. -/
abbrev I64 := Checked .i64

/-- Signed balances and differences. -/
abbrev I128 := Checked .i128

structure AnyChecked where
  width : Width
  number : Checked width
  deriving DecidableEq

namespace Checked

variable {w : Width}

@[ext] theorem ext {a b : Checked w} (h : a.val = b.val) : a = b := by
  cases a; cases b; cases h; rfl

/-- An integer as a value of the width, or the failure if it lies outside. -/
def within (w : Width) (n : Int) (failure : Error) : Except Error (Checked w) :=
  if h : w.lo ≤ n ∧ n ≤ w.hi then .ok ⟨n, h.1, h.2⟩ else .error failure

def ofInt (w : Width) (n : Int) : Except Error (Checked w) :=
  within w n (.naming n (.arithmetic (.outOfRange w n)))

def ofResult (w : Width) (n : Int) : Except Error (Checked w) :=
  within w n (.arithmetic (.overflow w n))

def castInt (n : Int) (target : Width) : Except Error (Checked target) :=
  within target n (.naming n (.arithmetic (.lossyCast n target)))

def cast (a : Checked w) (target : Width) : Except Error (Checked target) := castInt a.val target

def zero : Checked w := ⟨0, w.lo_nonpos, w.hi_nonneg⟩

def one : U128 := ⟨1, by decide, by decide⟩

def add (a : Checked w) (b : Int) : Except Error (Checked w) := ofResult w (a.val + b)

def sub (a : Checked w) (b : Int) : Except Error (Checked w) := ofResult w (a.val - b)

def mul (a : Checked w) (b : Int) : Except Error (Checked w) := ofResult w (a.val * b)

/-- The quotient cut toward zero. The least value of a signed width has no quotient by minus one. -/
def div (a : Checked w) (b : Int) : Except Error (Checked w) :=
  if b = 0 then .error (.arithmetic (.divisionByZero w)) else ofResult w (a.val.tdiv b)

def root (a : Checked w) (degree : Int) : Except Error (Checked w) := do
  ofResult w (← Root.ofInt a.val degree)

def min (a b : Checked w) : Checked w := if a.val ≤ b.val then a else b

def max (a b : Checked w) : Checked w := if b.val ≤ a.val then a else b

end Checked
end ExchangeFees

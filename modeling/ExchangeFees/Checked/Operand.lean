import ExchangeFees.Value

/-!
Checked integers beside values of any kind. A width takes its own values as they are and any integer
that fits; a value of another width is refused, since widths are only changed by a cast. Truth
values are never integers here. Ordering holds between two values of one width only.
-/
namespace ExchangeFees

namespace Checked

variable {w : Width}

/-- Makes a value of a width from an integer, and from nothing else. -/
def construct (w : Width) : Value → Except Error (Checked w)
  | .int n => ofInt w n
  | x => .error (.mismatch (.construction w x.kind))

/-- Takes a value of the width as it is, or an integer. -/
def of (w : Width) : Value → Except Error (Checked w)
  | .record (.checked v c) =>
    if h : v = w then .ok ⟨c.val, h ▸ c.lo_le, h ▸ c.le_hi⟩ else .error (.mismatch (.width w v))
  | x => construct w x

/-- The right operand of arithmetic on a width: a value that the width admits, or an integer that
fits. -/
def operand (w : Width) : Value → Except Error Int
  | .record (.checked v c) =>
    if w.admits v then .ok c.val else .error (.mismatch (.operand w (.checked v)))
  | .int n => do return (← ofInt w n).val
  | x => .error (.mismatch (.operand w x.kind))

/-- A value of the same width, for an order comparison with a value of that width on its left. -/
def peer (order : Comparison) (w : Width) : Value → Except Error (Checked w)
  | .record (.checked v c) =>
    if h : v = w then .ok ⟨c.val, h ▸ c.lo_le, h ▸ c.le_hi⟩
    else .error (.mismatch (.unordered order (.checked w) (.checked v)))
  | x => .error (.mismatch (.unordered order (.checked w) x.kind))

def minOf (a : Checked w) (x : Value) : Except Error (Checked w) := do
  let _ ← operand w x
  return a.min (← peer .le w x)

def maxOf (a : Checked w) (x : Value) : Except Error (Checked w) := do
  let _ ← operand w x
  return a.max (← peer .ge w x)

def toValue (a : Checked w) : Value := .record (.checked w a)

end Checked

def AnyChecked.toValue (a : AnyChecked) : Value := a.number.toValue

/-- Takes a value into a width as `Checked.of` does. The base takes values of every width, each of
which keeps its own. -/
def AnyChecked.of (w : Width) (x : Value) : Except Error AnyChecked :=
  match w, x with
  | .base, .record (.checked v c) => .ok ⟨v, c⟩
  | w, x => do return ⟨w, ← Checked.of w x⟩

def Value.cast (target : Width) : Value → Except Error (Checked target)
  | .record (.checked _ c) => c.cast target
  | .int n => Checked.castInt n target
  | x => .error (.mismatch (.castSource x.kind target))

def Value.root : (value degree : Value) → Except Error Int
  | .int v, .int n => Root.ofInt v n
  | _, _ => .error (.mismatch .rootArguments)

end ExchangeFees

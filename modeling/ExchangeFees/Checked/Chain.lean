import ExchangeFees.Checked.Operand

/-!
Chains of operations on one checked integer. Each step casts the accumulator or applies an operation
to it. A checked result is the next accumulator; a failure or any other answer leaves it as it was.
-/
namespace ExchangeFees

inductive Operation where
  | itself
  | add (x : Value)
  | sub (x : Value)
  | mul (x : Value)
  | div (x : Value)
  | root (degree : Value)
  | min (x : Value)
  | max (x : Value)
  | isZero
  | isNegative
  | compare (order : Comparison) (x : Value)
  | equal (x : Value)
  | integer
  | hexadecimal
  | text
  | describe

namespace Checked

variable {w : Width}

def hexText (a : Checked w) : String :=
  (if a.val < 0 then "-0x" else "0x") ++ String.ofList (Nat.toDigits 16 a.val.natAbs)

/-- A value between the parentheses of its width. -/
def describe (a : Checked w) : String := s!"{w.name}(value={a.val})"

/-- The root whose degree is a value: a plain integer, and no checked one. -/
def rootOf (a : Checked w) (degree : Value) : Except Error (Checked w) := do
  ofResult w (← Value.root (.int a.val) degree)

def apply (a : Checked w) : Operation → Except Error Value
  | .itself => .ok a.toValue
  | .add x => do return (← a.add (← operand w x)).toValue
  | .sub x => do return (← a.sub (← operand w x)).toValue
  | .mul x => do return (← a.mul (← operand w x)).toValue
  | .div x => do return (← a.div (← operand w x)).toValue
  | .root n => do return (← a.rootOf n).toValue
  | .min x => do return (← a.minOf x).toValue
  | .max x => do return (← a.maxOf x).toValue
  | .isZero => .ok (.bool (a.val = 0))
  | .isNegative => .ok (.bool (a.val < 0))
  | .compare order x => do return .bool (order.holds a.val (← peer order w x).val)
  | .equal x =>
    match x with
    | .record r => .ok (.bool (r = .checked w a))
    | _ => .ok (.bool false)
  | .integer => .ok (.int a.val)
  | .hexadecimal => .ok (.text a.hexText)
  | .text => .ok (.text (toString a.val))
  | .describe => .ok (.text a.describe)

end Checked

namespace Chain

inductive Step where
  | cast (target : Width)
  | apply (operation : Operation)

def Step.answer (acc : AnyChecked) : Step → Except Error Value
  | .cast target => do return (← acc.number.cast target).toValue
  | .apply operation => acc.number.apply operation

def next (acc : AnyChecked) : Except Error Value → AnyChecked
  | .ok (.record (.checked w c)) => ⟨w, c⟩
  | _ => acc

def run (acc : AnyChecked) : List Step → List (Except Error Value × AnyChecked)
  | [] => []
  | step :: rest =>
    let answer := step.answer acc
    (answer, next acc answer) :: run (next acc answer) rest

end Chain
end ExchangeFees

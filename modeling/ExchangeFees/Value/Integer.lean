import ExchangeFees.Text.Numeral
import ExchangeFees.Value

/-!
The integer that a value stands for. Integers and checked integers stand for themselves, truth
values for zero and one, finite floating-point numbers for their part before the point, and texts
for the decimal literal they hold.
-/
namespace ExchangeFees

/-- The integer of a value, or why it has none. -/
def Value.toInteger : Value → Except Error Int
  | .int n => .ok n
  | .bool b => .ok (if b then 1 else 0)
  | .float x =>
    match x.truncate?, x with
    | some n, _ => .ok n
    | .none, .nan => .error .notANumber
    | .none, _ => .error .infiniteNumber
  | .text s =>
    match Text.readInteger s with
    | .ok n => .ok n
    | .error .malformed => .error (.badLiteral s)
    | .error (.long digits) => .error (.longLiteral digits)
  | .record (.checked _ c) => .ok c.val
  | x => .error (.mismatch (.notNumeric x.kind))

end ExchangeFees

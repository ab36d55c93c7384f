import ExchangeFees.Decimal
import ExchangeFees.Record.Fields
import ExchangeFees.Value.Integer

/-!
Amounts as people read them: a sign if the amount is negative, the quote units without superfluous
zeros, a point and exactly six places. Amounts of more than 48 digits are not shown. Nothing is
rounded, so the digits of the text are those of the amount.
-/
namespace ExchangeFees

namespace Quote

def digitLimit : Nat := 48

/-- The least magnitude that is not shown, with one digit more. -/
def limit : Nat := Nat.pow 10 digitLimit

def chars (n : Int) : List Char :=
  (if n < 0 then ['-'] else []) ++ Text.digits (n.natAbs / quoteUnit) ++
    '.' :: Text.places quotePlaces n.natAbs

/-- An amount in quote units, as a decimal of six places. -/
def toDecimal (n : Int) : Except Error Decimal := do
  let quotient ← (Decimal.ofInt n).divide digitLimit (Decimal.ofInt quoteUnit) (by decide)
  quotient.quantize digitLimit (-quotePlaces)

def text (n : Int) : Except Error String := do return String.ofList (← toDecimal n).chars

/-- The amount that a value stands for, in quote units. -/
def ofValue (x : Value) : Except Error String := do text (← x.toInteger)

end Quote

/-- The fields of a record as integers, or as texts in quote units; other values have no fields. -/
def Value.amounts (inQuote : Bool) : Value → Except Error Entries
  | .record r => r.fields.mapM fun e => do
    if inQuote then return (e.1, .text (← Quote.ofValue e.2))
    else return (e.1, .int (← e.2.toInteger))
  | x => .error (.mismatch (.notRecord x.kind))

end ExchangeFees

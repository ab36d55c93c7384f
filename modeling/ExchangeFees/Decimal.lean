import ExchangeFees.Binary64
import ExchangeFees.Error

/-!
Decimal arithmetic to a precision, for showing amounts. A decimal is a sign, a coefficient and a
power of ten; zeros at the end of a coefficient count, and zero has a sign. A result that has more
digits than the precision is rounded to the nearest, and of two as near to the even one. A quotient
that ends within the precision is exact, with the exponent that comes closest to the difference of
the exponents. A quotient whose leading digit has too great an exponent is refused. There is no
least exponent here: one that a quotient of integers could fall below is far beyond any that they
are divided for.
-/
namespace ExchangeFees

/-- The coefficient times ten to the exponent, after a minus if it is negative. -/
structure Decimal where
  negative : Bool
  coefficient : Nat
  exponent : Int
  deriving DecidableEq, Repr

namespace Decimal

def ofInt (n : Int) : Decimal := ⟨n < 0, n.natAbs, 0⟩

/-- The count of decimal digits of a number; zero has one. -/
def digitCount (n : Nat) : Nat := (Text.digits n).length

/-- A quotient of naturals times ten to the exponent, to at most `precision` digits. -/
def round (precision : Nat) (negative : Bool) (num den : Nat) (exponent : Int) : Decimal :=
  let excess := digitCount (num / den) - precision
  let c := Binary64.roundQuotient num (den * Nat.pow 10 excess)
  -- Rounding up may carry into one digit more, and the last one is zero then.
  if precision < digitCount c then ⟨negative, c / 10, exponent + excess + 1⟩
  else ⟨negative, c, exponent + excess⟩

/-- Takes zeros off the end of a coefficient, `k` at most. -/
def stripZeros : (k : Nat) → Decimal → Decimal
  | 0, x => x
  | k + 1, x =>
    if x.coefficient % 10 = 0 then stripZeros k ⟨x.negative, x.coefficient / 10, x.exponent + 1⟩
    else x

/-- The greatest exponent of a leading digit. -/
def greatestExponent : Nat := 999999

/-- A decimal other than zero has a leading digit, whose exponent is limited. -/
def limited (x : Decimal) : Except Error Decimal :=
  if x.coefficient ≠ 0 ∧ greatestExponent < x.exponent + digitCount x.coefficient - 1 then
    .error .displayOverflow
  else .ok x

/-- The quotient by a decimal other than zero. The coefficients are shifted until their quotient has
more digits than the precision. If it then leaves no remainder it is exact, and the zeros that the
shift brought in are taken off again; otherwise the remainder counts when it is rounded. -/
def quotient (precision : Nat) (x y : Decimal) : Decimal :=
  let negative := x.negative ^^ y.negative
  let shift : Int := precision + 1 + digitCount y.coefficient - digitCount x.coefficient
  let num := x.coefficient * Nat.pow 10 shift.toNat
  let den := y.coefficient * Nat.pow 10 (-shift).toNat
  let exponent := x.exponent - y.exponent - shift
  if num % den = 0 then
    let exact := stripZeros shift.toNat ⟨negative, num / den, exponent⟩
    round precision negative exact.coefficient 1 exact.exponent
  else round precision negative num den exponent

def divide (precision : Nat) (x y : Decimal) (_nonzero : y.coefficient ≠ 0) :
    Except Error Decimal :=
  (quotient precision x y).limited

def rescale (exponent : Int) (x : Decimal) : Decimal :=
  let num := x.coefficient * Nat.pow 10 (x.exponent - exponent).toNat
  let den := Nat.pow 10 (exponent - x.exponent).toNat
  ⟨x.negative, Binary64.roundQuotient num den, exponent⟩

/-- Rescales a decimal, which may not take more digits than the precision. -/
def quantize (precision : Nat) (exponent : Int) (x : Decimal) : Except Error Decimal :=
  let y := x.rescale exponent
  if digitCount y.coefficient ≤ precision then .ok y else .error .displayRange

def chars (x : Decimal) : List Char :=
  let whole := x.coefficient * Nat.pow 10 x.exponent.toNat
  let places := (-x.exponent).toNat
  (if x.negative then ['-'] else []) ++ Text.digits (whole / Nat.pow 10 places) ++
    if places = 0 then [] else '.' :: Text.places places x.coefficient

end Decimal
end ExchangeFees

import ExchangeFees.Text.Decimal

/-!
Floating-point numbers of 64 bits, as exact values: not a number, an infinity, or an integer times a
power of two. Nothing is computed with them; they are read from decimal digits, rounded to the
nearest with ties to even, and cut to integers.
-/
namespace ExchangeFees

/-- A number of the 64-bit format; `finite m e` is `m` times two to the `e`. -/
inductive Binary64 where
  | nan
  | infinite (negative : Bool)
  | finite (mantissa exponent : Int)
  deriving DecidableEq, Repr

namespace Binary64

/-- A quotient of naturals to the nearest integer, with ties to even. -/
def roundQuotient (num den : Nat) : Nat :=
  let q := num / den
  let twice := 2 * (num % den)
  if den < twice || (den = twice && q % 2 = 1) then q + 1 else q

/-- The quotient `num / den` scaled by two to the `-e`, as numerator and denominator. -/
def scaled (num den : Nat) (e : Int) : Nat × Nat :=
  if 0 ≤ e then (num, den <<< e.toNat) else (num <<< (-e).toNat, den)

def leadingBit (num den : Nat) : Int :=
  let guess : Int := (num.log2 : Int) - den.log2
  let unit := scaled num den guess
  if unit.1 < unit.2 then guess - 1 else guess

/-- The number of the format nearest to a quotient, of a given sign. A quotient whose rounding has
more than 1024 bits is infinite; below the least normal number the exponent stays at -1074. -/
def ofQuotient (negative : Bool) (num den : Nat) : Binary64 :=
  if num = 0 then finite 0 0
  else
    let e := max (leadingBit num den - 52) (-1074)
    let frac := scaled num den e
    let m := roundQuotient frac.1 frac.2
    if 1024 ≤ (m.log2 : Int) + e then infinite negative
    else finite (if negative then -(m : Int) else m) e

/-- The number nearest to `digits` times ten to the `exponent`. Exponents beyond four hundred, once
the digits are counted in, give infinity and zero without the power being taken. -/
def ofDecimal (negative : Bool) (digits : Nat) (exponent : Int) : Binary64 :=
  let size : Int := (digits.log2 : Int) * 3 / 10 + exponent
  if digits = 0 || size < -400 then finite 0 0
  else if 400 < size then infinite negative
  else if 0 ≤ exponent then ofQuotient negative (digits * Nat.pow 10 exponent.toNat) 1
  else ofQuotient negative digits (Nat.pow 10 (-exponent).toNat)

/-- The integer a number is cut to, toward zero; not a number and the infinities have none. -/
def truncate? : Binary64 → Option Int
  | finite m e =>
    some (if 0 ≤ e then m * (Nat.pow 2 e.toNat : Nat) else m.tdiv (Nat.pow 2 (-e).toNat : Nat))
  | _ => none

end Binary64

structure DecimalNumeral where
  negative : Bool
  whole : List Char
  fraction : List Char
  exponent : Int
  deriving DecidableEq, Repr

namespace DecimalNumeral

def toBinary64 (d : DecimalNumeral) : Binary64 :=
  .ofDecimal d.negative (Text.natOfDigits (d.whole ++ d.fraction)) (d.exponent - d.fraction.length)

def spanDigits (cs : List Char) : List Char × List Char :=
  (cs.takeWhile Char.isDigit, cs.dropWhile Char.isDigit)

/-- An optional sign: whether it is a minus, and what follows it. -/
def spanSign : List Char → Bool × List Char
  | '-' :: rest => (true, rest)
  | '+' :: rest => (false, rest)
  | rest => (false, rest)

/-- The digits after a point, if a point and at least one digit come next, and what follows. -/
def spanFraction (cs : List Char) : List Char × List Char :=
  match cs with
  | '.' :: rest => if (spanDigits rest).1 = [] then ([], cs) else spanDigits rest
  | _ => ([], cs)

/-- The exponent, if its letter, an optional sign and at least one digit come next, and what
follows; otherwise nothing is taken. -/
def spanExponent (cs : List Char) : Option Int × List Char :=
  match cs with
  | c :: rest =>
    let sign := spanSign rest
    let ds := spanDigits sign.2
    if (c = 'e' || c = 'E') && ds.1 ≠ [] then
      (some (if sign.1 then -(Text.natOfDigits ds.1 : Int) else Text.natOfDigits ds.1), ds.2)
    else (none, cs)
  | [] => (none, cs)

theorem length_spanDigits_le (cs : List Char) : (spanDigits cs).2.length ≤ cs.length :=
  (List.dropWhile_suffix _).length_le

theorem length_spanSign_le (cs : List Char) : (spanSign cs).2.length ≤ cs.length := by
  unfold spanSign; split <;> simp

theorem length_spanFraction_le (cs : List Char) : (spanFraction cs).2.length ≤ cs.length := by
  unfold spanFraction
  split
  · next rest =>
    have := length_spanDigits_le rest
    split <;> simp only [List.length_cons] <;> omega
  · exact Nat.le_refl _

theorem length_spanExponent_le (cs : List Char) : (spanExponent cs).2.length ≤ cs.length := by
  unfold spanExponent
  split
  · next c rest =>
    have := length_spanDigits_le (spanSign rest).2
    have := length_spanSign_le rest
    dsimp only
    split <;> simp only [List.length_cons] <;> omega
  · exact Nat.le_refl _

/-- Reads a whole text as a number: an optional sign, then the name of a special value or digits
with an optional point and exponent. -/
def read? (s : String) : Option Binary64 :=
  let sign := spanSign s.toList
  let whole := spanDigits sign.2
  let fraction := spanFraction whole.2
  let exponent := spanExponent fraction.2
  if sign.2 = ['n', 'a', 'n'] then some .nan
  else if sign.2 = ['i', 'n', 'f'] then some (.infinite sign.1)
  else if exponent.2 = [] && whole.1 ≠ [] then
    some (toBinary64 ⟨sign.1, whole.1, fraction.1, exponent.1.getD 0⟩)
  else none

end DecimalNumeral
end ExchangeFees

import ExchangeFees.Error

/-!
The whole part of the n-th root of an integer, by Newton's iteration on natural numbers. The
iteration starts at a power of two that is no less than the root and goes down while it can, so it
ends, and no number it divides by is zero. A degree above the exponent of the number's leading bit
needs no iteration: the root is one.
-/
namespace ExchangeFees.Root

/-- One step of the iteration for the root of degree `n` of `v`, from `x`. -/
def newton (n v x : Nat) : Nat := ((n - 1) * x + v / Nat.pow x (n - 1)) / n

/-- Steps down from `x` as long as the next number is less. -/
def descend (n v x : Nat) : Nat :=
  if newton n v x < x then descend n v (newton n v x) else x
termination_by x

/-- The least power of two whose exponent times `n` is no less than the bit count of `v`. -/
def start (n v : Nat) : Nat := Nat.pow 2 ((v.log2 + n) / n)

/-- The greatest natural number whose `n`-th power is at most `v`, for a positive degree. -/
def floorRoot (n v : Nat) : Nat :=
  if v < 2 || n = 1 then v
  else if v.log2 < n then 1
  else descend n v (start n v)

/-- The root of an integer, where the degree is positive and the integer is not negative. -/
def ofInt (value degree : Int) : Except Error Int :=
  if degree < 1 then .error (.naming degree (.arithmetic (.rootDegree degree)))
  else if value < 0 then .error (.naming value (.arithmetic (.negativeRadicand value)))
  else .ok (floorRoot degree.toNat value.toNat)

end ExchangeFees.Root

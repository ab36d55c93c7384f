/-!
Decimal digits of natural numbers, without leading zeros or to a fixed count of places, and the
number that digits stand for. Reading what was written gives the number back; to a fixed count of
places it gives the number less the digits that were left out. Texts of integers have a greatest
count of digits, beyond which they are neither written into a message nor read from a literal.
-/
namespace ExchangeFees.Text

/-- The most digits that an integer is written with or read from. -/
@[irreducible] def digitLimit : Nat := 4300

/-- An integer of no more digits than are written. -/
def IsShort (n : Int) : Prop := n.natAbs < Nat.pow 10 digitLimit

instance (n : Int) : Decidable (IsShort n) := Nat.decLt _ _

def digits (n : Nat) : List Char :=
  if n < 10 then [Nat.digitChar n] else digits (n / 10) ++ [Nat.digitChar (n % 10)]

/-- The last `k` decimal digits of a number, with leading zeros. -/
def places : Nat → Nat → List Char
  | 0, _ => []
  | k + 1, n => places k (n / 10) ++ [Nat.digitChar (n % 10)]

/-- An integer in decimal, after a minus if it is negative. -/
def ofInt (n : Int) : List Char := (if n < 0 then ['-'] else []) ++ digits n.natAbs

def natOfDigits (ds : List Char) : Nat := ds.foldl (fun n d => 10 * n + (d.toNat - 48)) 0

theorem natOfDigits_append_singleton (ds : List Char) (d : Char) :
    natOfDigits (ds ++ [d]) = 10 * natOfDigits ds + (d.toNat - 48) := by
  simp [natOfDigits, List.foldl_append]

theorem toNat_digitChar {d : Nat} (h : d < 10) : (Nat.digitChar d).toNat - 48 = d := by
  rw [Nat.toNat_digitChar_of_lt_ten h]
  omega

@[simp] theorem natOfDigits_digits (n : Nat) : natOfDigits (digits n) = n := by
  fun_induction digits n with
  | case1 n h => simpa [natOfDigits] using toNat_digitChar h
  | case2 n h ih =>
    rw [natOfDigits_append_singleton, ih, toNat_digitChar (Nat.mod_lt _ (by decide))]
    omega

@[simp] theorem length_places (k n : Nat) : (places k n).length = k := by
  induction k generalizing n with
  | zero => rfl
  | succ k ih => simp [places, ih]

/-- The last places of a number stand for what they hold of it. -/
theorem natOfDigits_places (k n : Nat) : natOfDigits (places k n) = n % Nat.pow 10 k := by
  induction k generalizing n with
  | zero => exact (Nat.mod_one n).symm
  | succ k ih =>
    rw [places, natOfDigits_append_singleton, ih, toNat_digitChar (Nat.mod_lt _ (by decide))]
    change _ = n % (Nat.pow 10 k * 10)
    rw [Nat.mul_comm (Nat.pow 10 k) 10, Nat.mod_mul]
    omega

def padLeft (width : Nat) (fill : Char) (cs : List Char) : List Char :=
  List.replicate (width - cs.length) fill ++ cs

def padRight (width : Nat) (cs : List Char) : List Char :=
  cs ++ List.replicate (width - cs.length) ' '

end ExchangeFees.Text

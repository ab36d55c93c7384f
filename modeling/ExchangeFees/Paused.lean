import ExchangeFees.Text.Decimal

/-!
Paused operations of a market. A mask is an integer of any size and sign, read in two's complement,
with one bit for each operation; an operation is paused while its bit is set. Whether two masks
share a bit is decided on natural numbers: a negative mask has every bit that the number one less
than its magnitude lacks.
-/
namespace ExchangeFees

inductive PausedOperation where
  | funding
  | ammFills
  | fill
  | withdraw
  deriving DecidableEq, Repr

namespace PausedOperation

def mask : PausedOperation → Int
  | funding => 1
  | ammFills => 2
  | fill => 4
  | withdraw => 8

def name : PausedOperation → String
  | funding => "FUNDING"
  | ammFills => "AMM_FILLS"
  | fill => "FILL"
  | withdraw => "WITHDRAW"

def label (o : PausedOperation) : String := s!"<PausedOperations.{o.name}: {o.mask}>"

end PausedOperation

namespace Mask

def overlap : Int → Int → Bool
  | .ofNat a, .ofNat b => Nat.land a b ≠ 0
  | .ofNat a, .negSucc b => Nat.land a b ≠ a
  | .negSucc a, .ofNat b => Nat.land b a ≠ b
  | .negSucc _, .negSucc _ => true

/-- A mask in binary, six characters wide at least, with its sign first. -/
def text (mask : Int) : String :=
  let sign := if mask < 0 then ['-'] else []
  String.ofList (sign ++ ['0', 'b'] ++
    Text.padLeft (4 - sign.length) '0' (Nat.toDigits 2 mask.natAbs))

end Mask
end ExchangeFees

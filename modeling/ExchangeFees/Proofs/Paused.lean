import ExchangeFees.Guard
import ExchangeFees.Proofs.Failure
import Mathlib.Data.Int.Bitwise

/-! Masks of paused operations by their bits in two's complement. The guard in front of fills reads
two bits of a mask, that of all fills first, and no others. -/
namespace ExchangeFees

/-- The bit of a mask that pauses an operation. -/
def PausedOperation.bit : PausedOperation → Nat
  | funding => 0
  | ammFills => 1
  | fill => 2
  | withdraw => 3

namespace Mask

/-- A mask of any size and sign shares the one bit of another mask exactly if it has it. -/
theorem overlap_shift (mask : Int) (k : Nat) :
    overlap mask (Int.ofNat (1 <<< k)) = mask.testBit k := by
  rw [Nat.one_shiftLeft]
  cases mask with
  | ofNat n =>
    change decide (n &&& 2 ^ k ≠ 0) = n.testBit k
    rw [Nat.and_two_pow]
    cases n.testBit k with
    | false => simp
    | true => simp
  | negSucc n =>
    change decide (2 ^ k &&& n ≠ 2 ^ k) = !n.testBit k
    rw [Nat.two_pow_and]
    cases n.testBit k with
    | false => simp [(Nat.two_pow_pos k).ne]
    | true => simp

/-- An operation is paused exactly if its bit is set. -/
theorem overlap_mask (mask : Int) (o : PausedOperation) :
    overlap mask o.mask = mask.testBit o.bit := by
  have shifted : o.mask = Int.ofNat (1 <<< o.bit) := by cases o <;> rfl
  rw [shifted, overlap_shift]

theorem allowFill_eq (mask : Int) (againstAmm : Bool) :
    allowFill mask againstAmm =
      if mask.testBit 2 then .error (.paused .fill mask)
      else if againstAmm && mask.testBit 1 then .error (.paused .ammFills mask)
      else .ok () := by
  simp only [allowFill, overlap_mask]
  rfl

/-- The guard refuses a fill for the mask that it is given. -/
theorem allowFill_eq_error {mask : Int} {againstAmm : Bool} {e : Error}
    (refused : allowFill mask againstAmm = .error e) :
    ∃ operation, e = .paused operation mask := by
  unfold allowFill at refused
  split at refused
  · exact ⟨_, (Except.error.inj refused).symm⟩
  · split at refused
    · exact ⟨_, (Except.error.inj refused).symm⟩
    · cases refused

end Mask

/-- The bits that pause fills, that of the market's own maker and that of all, where a mask stands
for an integer. -/
def Value.fillBits (mask : Value) : Except Error (Bool × Bool) :=
  (fun m => (m.testBit 1, m.testBit 2)) <$> mask.toInteger

/-- A failure that is none of a paused operation. -/
def Error.NotPaused (e : Error) : Prop := ∀ operation mask, e ≠ .paused operation mask

/-- A failure without the mask that it shows. -/
def Error.withoutMask : Error → Error
  | paused operation _ => paused operation 0
  | e => e

theorem allowFill_of_toInteger {mask : Value} {m : Int} (stands : mask.toInteger = .ok m)
    (againstAmm : Bool) : allowFill mask againstAmm = Mask.allowFill m againstAmm := by
  rw [allowFill, stands]
  rfl

/-- Masks that agree in the bits that pause fills let the same fills pass and refuse the others for
the same operation. -/
theorem allowFill_withoutMask {mask other : Value} (bits : mask.fillBits = other.fillBits)
    (againstAmm : Bool) :
    (allowFill mask againstAmm).mapError Error.withoutMask =
      (allowFill other againstAmm).mapError Error.withoutMask := by
  obtain ⟨e, stands, stands'⟩ | ⟨m, m', stands, stands', same⟩ := map_eq_map bits
  · rw [allowFill, allowFill, stands, stands']
  · obtain ⟨ammFills, fill⟩ := Prod.mk.inj same
    rw [allowFill_of_toInteger stands, allowFill_of_toInteger stands', Mask.allowFill_eq,
      Mask.allowFill_eq, ammFills, fill]
    split
    · rfl
    · split
      · rfl
      · rfl

end ExchangeFees

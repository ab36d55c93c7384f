/-!
UTF-8, one octet at a time. A lead octet says how many octets follow and between which bounds the
first of them lies; the others lie between 0x80 and 0xBF. A fault is named for the octet that rules
the text out: one that begins no character, one that cannot continue the character begun, or the end
of the text inside a character. It extends over the octets of the character that was begun.
-/
namespace ExchangeFees.Text.Utf8

inductive Reason where
  | start
  | continuation
  | truncated
  deriving DecidableEq, Repr

/-- The faulty octets: how many there are, from which position, and the first of them. -/
structure Fault where
  reason : Reason
  position : Nat
  length : Nat
  octet : UInt8
  deriving DecidableEq, Repr

/-- A character under way: where it began and with which octet, how many octets were taken and how
many are owed, the bounds of the next one, and the bits so far. -/
structure Pending where
  position : Nat
  octet : UInt8
  taken : Nat
  owed : Nat
  least : UInt8
  greatest : UInt8
  bits : Nat

/-- The character that lead octet `b` at position `p` begins. -/
def begin? (p : Nat) (b : UInt8) : Option Pending :=
  let pending (owed : Nat) (least greatest : UInt8) (mark : Nat) : Pending :=
    ⟨p, b, 1, owed, least, greatest, b.toNat - mark⟩
  if 0xC2 ≤ b && b ≤ 0xDF then some (pending 1 0x80 0xBF 0xC0)
  else if b = 0xE0 then some (pending 2 0xA0 0xBF 0xE0)
  else if b = 0xED then some (pending 2 0x80 0x9F 0xE0)
  else if 0xE1 ≤ b && b ≤ 0xEF then some (pending 2 0x80 0xBF 0xE0)
  else if b = 0xF0 then some (pending 3 0x90 0xBF 0xF0)
  else if 0xF1 ≤ b && b ≤ 0xF3 then some (pending 3 0x80 0xBF 0xF0)
  else if b = 0xF4 then some (pending 3 0x80 0x8F 0xF0)
  else none

def Pending.fault (c : Pending) (reason : Reason) : Fault := ⟨reason, c.position, c.taken, c.octet⟩

def Pending.push (c : Pending) (b : UInt8) : Pending :=
  ⟨c.position, c.octet, c.taken + 1, c.owed - 1, 0x80, 0xBF, c.bits * 64 + (b.toNat - 0x80)⟩

/-- Decodes from position `p` on, inside a character or between two. -/
def decodeFrom (p : Nat) : Option Pending → List UInt8 → Except Fault (List Char)
  | none, [] => .ok []
  | some c, [] => .error (c.fault .truncated)
  | none, b :: rest =>
    if b < 0x80 then (Char.ofNat b.toNat :: ·) <$> decodeFrom (p + 1) none rest
    else match begin? p b with
      | none => .error ⟨.start, p, 1, b⟩
      | some c => decodeFrom (p + 1) (some c) rest
  | some c, b :: rest =>
    if c.least ≤ b && b ≤ c.greatest then
      if c.owed = 1 then (Char.ofNat (c.push b).bits :: ·) <$> decodeFrom (p + 1) none rest
      else decodeFrom (p + 1) (some (c.push b)) rest
    else .error (c.fault .continuation)

def decode (octets : List UInt8) : Except Fault (List Char) := decodeFrom 0 none octets

end ExchangeFees.Text.Utf8

namespace ExchangeFees.Text

/-- Every line end as one line feed: a carriage return ends a line, alone or with the line feed that
follows it. -/
def unifyLineEnds : List Char → List Char
  | '\r' :: '\n' :: rest => '\n' :: unifyLineEnds rest
  | '\r' :: rest => '\n' :: unifyLineEnds rest
  | c :: rest => c :: unifyLineEnds rest
  | [] => []

end ExchangeFees.Text

import ExchangeFees.Text.Decimal

/-!
Integer literals as people write them: blanks around, an optional sign, then digits of a base with
single underscores between them. Digits are those of any script that the Unicode character database,
version 14, gives a decimal value; blanks are its white space, less the four information separators.
With no base given, a literal names its own by the marks 0b, 0o and 0x, and without a mark is
decimal and may start with zero only if it is zero. The digits that a decimal literal starts with
are counted before they are read, and before anything after them is looked at; other bases have no
limit.
-/
namespace ExchangeFees.Text

/-- The code point of the digit zero in every script that has decimal digits; the digits one to nine
follow it. -/
def zeroDigits : List Nat := [
  0x30, 0x660, 0x6F0, 0x7C0, 0x966, 0x9E6, 0xA66, 0xAE6, 0xB66, 0xBE6, 0xC66, 0xCE6, 0xD66, 0xDE6,
  0xE50, 0xED0, 0xF20, 0x1040, 0x1090, 0x17E0, 0x1810, 0x1946, 0x19D0, 0x1A80, 0x1A90, 0x1B50, 0x1BB0,
  0x1C40, 0x1C50, 0xA620, 0xA8D0, 0xA900, 0xA9D0, 0xA9F0, 0xAA50, 0xABF0, 0xFF10, 0x104A0, 0x10D30,
  0x11066, 0x110F0, 0x11136, 0x111D0, 0x112F0, 0x11450, 0x114D0, 0x11650, 0x116C0, 0x11730, 0x118E0,
  0x11950, 0x11C50, 0x11D50, 0x11DA0, 0x16A60, 0x16AC0, 0x16B50, 0x1D7CE, 0x1D7D8, 0x1D7E2, 0x1D7EC,
  0x1D7F6, 0x1E140, 0x1E2F0, 0x1E950, 0x1FBF0]

def decimalDigit? (c : Char) : Option Nat :=
  (zeroDigits.find? fun z => z ≤ c.toNat && c.toNat < z + 10).map (c.toNat - ·)

def isBlank (c : Char) : Bool :=
  (9 ≤ c.toNat && c.toNat ≤ 13) || (0x2000 ≤ c.toNat && c.toNat ≤ 0x200A) ||
    [0x20, 0x85, 0xA0, 0x1680, 0x2028, 0x2029, 0x202F, 0x205F, 0x3000].contains c.toNat

/-- A decimal digit of any script as its ASCII form; any other character as it is. -/
def toAsciiDigit (c : Char) : Char := ((decimalDigit? c).map Nat.digitChar).getD c

/-- The value of an ASCII digit or Latin letter in bases up to thirty-six. -/
def digit? (c : Char) : Option Nat :=
  if '0' ≤ c && c ≤ '9' then some (c.toNat - '0'.toNat)
  else if 'a' ≤ c && c ≤ 'z' then some (c.toNat - 'a'.toNat + 10)
  else if 'A' ≤ c && c ≤ 'Z' then some (c.toNat - 'A'.toNat + 10)
  else none

/-- Reads the digits that follow a first one, with single underscores between them. -/
def moreDigits? (base value : Nat) : List Char → Option Nat
  | [] => some value
  | '_' :: c :: rest => do
    let d ← digit? c
    if d < base then moreDigits? base (value * base + d) rest else none
  | c :: rest => do
    let d ← digit? c
    if d < base then moreDigits? base (value * base + d) rest else none

def digits? (base : Nat) : List Char → Option Nat
  | [] => none
  | c :: rest => do
    let d ← digit? c
    if d < base then moreDigits? base d rest else none

/-- Digits after a mark of the base, before which one underscore may stand. -/
def markedDigits? (base : Nat) : List Char → Option Nat
  | '_' :: rest => digits? base rest
  | rest => digits? base rest

inductive LiteralFault where
  | malformed
  /-- A decimal literal of too many digits. -/
  | long (digits : Nat)
  deriving DecidableEq, Repr

/-- Whether characters are digits with single underscores between them. -/
def areSpaced : List Char → Bool
  | [] => false
  | [c] => c.isDigit
  | c :: '_' :: rest => c.isDigit && areSpaced rest
  | c :: rest => c.isDigit && areSpaced rest

def orMalformed (n? : Option Nat) : Except LiteralFault Nat :=
  match n? with
  | some n => .ok n
  | none => .error .malformed

def readDecimal (cs : List Char) : Except LiteralFault Nat :=
  let run := cs.takeWhile fun c => c.isDigit || c = '_'
  let count := run.countP Char.isDigit
  if areSpaced run && digitLimit < count then .error (.long count) else orMalformed (digits? 10 cs)

def readSelfDescribed : List Char → Except LiteralFault Nat
  | '0' :: m :: rest =>
    if m = 'x' || m = 'X' then orMalformed (markedDigits? 16 rest)
    else if m = 'o' || m = 'O' then orMalformed (markedDigits? 8 rest)
    else if m = 'b' || m = 'B' then orMalformed (markedDigits? 2 rest)
    else do
      let n ← readDecimal ('0' :: m :: rest)
      if n = 0 then return n else .error .malformed
  | cs => readDecimal cs

/-- A literal without the blanks around it and with its digits in ASCII. -/
def normalize (cs : List Char) : List Char :=
  ((cs.dropWhile isBlank).reverse.dropWhile isBlank).reverse.map toAsciiDigit

def readSigned (readUnsigned : List Char → Except LiteralFault Nat) :
    List Char → Except LiteralFault Int
  | '-' :: cs => do return -(← readUnsigned cs : Int)
  | '+' :: cs => do return (← readUnsigned cs : Int)
  | cs => do return (← readUnsigned cs : Int)

def readInteger (s : String) : Except LiteralFault Int :=
  readSigned readDecimal (normalize s.toList)

def integer? (s : String) : Option Int := (readInteger s).toOption

def anyBaseInteger? (s : String) : Option Int :=
  (readSigned readSelfDescribed (normalize s.toList)).toOption

end ExchangeFees.Text

import ExchangeFees.Text.Codes
import ExchangeFees.Text.Printable

/-!
Texts as messages show them. A file name or a rejected literal is quoted: by an apostrophe unless
the text holds an apostrophe and no double quote. The quote in use and the backslash are escaped by
a backslash; tab, line feed and carriage return have letters; any other unprintable character is
written by its code in the fewest of two, four or eight lower-case hexadecimal digits. Other texts
are shown as they are, but for halves of surrogate pairs, which no stream takes and which are
written by their codes.
-/
namespace ExchangeFees.Text

/-- The last `k` lower-case hexadecimal digits of `n`, with leading zeros. -/
def hexDigits : Nat → Nat → List Char
  | 0, _ => []
  | k + 1, n => hexDigits k (n / 16) ++ [Nat.digitChar (n % 16)]

def escapeCode (code : Nat) : List Char :=
  if code < 0x100 then '\\' :: 'x' :: hexDigits 2 code
  else if code < 0x10000 then '\\' :: 'u' :: hexDigits 4 code
  else '\\' :: 'U' :: hexDigits 8 code

/-- The quote that codes are written between. -/
def quoteMark (codes : List Nat) : Char :=
  if codes.contains '\''.toNat && !codes.contains '"'.toNat then '"' else '\''

/-- One code as it stands between quotes `q`. -/
def escape (q : Char) (code : Nat) : List Char :=
  let c := Char.ofNat code
  if isHalf code then escapeCode code
  else if c = q || c = '\\' then ['\\', c]
  else if c = '\t' then ['\\', 't']
  else if c = '\n' then ['\\', 'n']
  else if c = '\r' then ['\\', 'r']
  else if isPrintable c then [c]
  else escapeCode code

def quotedCodes (codes : List Nat) : String :=
  let q := quoteMark codes
  String.ofList (q :: codes.flatMap (escape q) ++ [q])

def quoted (s : String) : String := quotedCodes (s.toList.map Char.toNat)

/-- A text as a stream shows it. -/
def shown (s : String) : String :=
  String.ofList ((codes s).flatMap fun code =>
    if isHalf code then escapeCode code else [Char.ofNat code])

end ExchangeFees.Text

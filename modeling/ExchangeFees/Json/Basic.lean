import ExchangeFees.Binary64

/-!
JSON values, and why a text gives none. Numbers written with neither point nor exponent are
integers; all others, and the three names for values that are no real number, are floating-point
numbers. The members of an object keep the order in which their names first came; a name that comes
again replaces the value. A text that stops being JSON has a fault at a place. Two limits are no
faults of the text: an integer may have too many digits, and arrays and objects may lie too deep
within each other.
-/
namespace ExchangeFees

inductive Json where
  | null
  | bool (b : Bool)
  | int (n : Int)
  | float (x : Binary64)
  | text (s : String)
  | array (items : List Json)
  | object (members : List (String × Json))

namespace Json

/-- What was expected, or not, where a text stops being JSON. -/
inductive Cause where
  | byteOrderMark
  | value
  | propertyName
  | colon
  | comma
  | extraData
  | unterminated
  | controlCharacter
  | escape
  | unicodeEscape
  deriving DecidableEq, Repr

def Cause.message : Cause → String
  | byteOrderMark => "Unexpected UTF-8 BOM (decode using utf-8-sig)"
  | value => "Expecting value"
  | propertyName => "Expecting property name enclosed in double quotes"
  | colon => "Expecting ':' delimiter"
  | comma => "Expecting ',' delimiter"
  | extraData => "Extra data"
  | unterminated => "Unterminated string starting at"
  | controlCharacter => "Invalid control character at"
  | escape => "Invalid \\escape"
  | unicodeEscape => "Invalid \\uXXXX escape"

/-- Where a text stops being JSON: the line and column from one, and the count of characters
before. -/
structure Fault where
  cause : Cause
  line : Nat
  column : Nat
  offset : Nat
  deriving DecidableEq, Repr

def Fault.locate (text : List Char) (cause : Cause) (offset : Nat) : Fault :=
  let before := text.take offset
  { cause
    line := before.count '\n' + 1
    column := (before.reverse.takeWhile (· ≠ '\n')).length + 1
    offset }

def Fault.message (f : Fault) : String :=
  s!"{f.cause.message}: line {f.line} column {f.column} (char {f.offset})"

/-- What opens in a text and has to be closed again. -/
inductive Container where
  | array
  | object
  deriving DecidableEq, Repr

def Container.name : Container → String
  | array => "array"
  | object => "object"

/-- What a text has too much of to be read on. -/
inductive Limit where
  /-- The digits of an integer. -/
  | digits (count : Nat)
  /-- Arrays and objects within each other, at the one that opens. -/
  | nesting (opened : Container)
  deriving DecidableEq, Repr

inductive Failure where
  | fault (f : Fault)
  | limit (l : Limit)
  deriving DecidableEq, Repr

/-- The members with one more: in the place of its name, if the name is there already. -/
def put (name : String) (value : Json) : List (String × Json) → List (String × Json)
  | [] => [(name, value)]
  | m :: rest => if m.1 = name then (name, value) :: rest else m :: put name value rest

end Json
end ExchangeFees

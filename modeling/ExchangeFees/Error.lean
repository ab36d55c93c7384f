import ExchangeFees.Files.Folder
import ExchangeFees.Json.Basic
import ExchangeFees.Kind
import ExchangeFees.Paused
import ExchangeFees.Text.Quoted
import ExchangeFees.Text.Utf8

/-!
Everything that can go wrong, by cause, with one wording for each. Failing arithmetic and failing
configuration are kinds of their own, because callers settle nothing on the first and reject the
parameters on the second; a paused operation names itself and the mask; a value of a kind that an
operation does not take is a mismatch. The rest concerns reading integers out of other values,
reading files, and showing amounts. A message that would name an integer of too many digits is not
written, and the failure is then that of writing the integer.
-/
namespace ExchangeFees

/-- Failing checked arithmetic: no result fits, or there is none. -/
inductive ArithmeticFault where
  /-- An integer outside the width it was given to. -/
  | outOfRange (w : Width) (n : Int)
  /-- The exact result of an operation lies outside the width. -/
  | overflow (w : Width) (n : Int)
  | divisionByZero (w : Width)
  | lossyCast (n : Int) (target : Width)
  | rootDegree (n : Int)
  | negativeRadicand (n : Int)
  /-- An integer outside the range of a field of a fee breakdown. -/
  | field (record : RecordKind) (name : String) (n : Int)
  deriving DecidableEq, Repr

inductive ConfigFault where
  | notMapping (record : RecordKind) (got : Kind)
  | unknownKeys (record : RecordKind) (keys : List String)
  | notReferral
  | notFiller
  | notInteger (record : RecordKind) (field : String) (got : Kind)
  | outOfRange (record : RecordKind) (field : String) (n : Int)
  | unreadable (path : Files.Path) (fault : Files.Fault)
  | notJson (path : Files.Path) (fault : Json.Fault)
  deriving DecidableEq, Repr

/-- A value of a kind that an operation does not take. -/
inductive Mismatch where
  /-- Only an integer makes a checked integer. -/
  | construction (w : Width) (got : Kind)
  /-- A checked integer of another width. -/
  | width (w got : Width)
  | operand (w : Width) (got : Kind)
  | unordered (order : Comparison) (left right : Kind)
  | castSource (got : Kind) (target : Width)
  | rootArguments
  | field (record : RecordKind) (name : String) (got : Kind)
  | notRecord (got : Kind)
  /-- A value that stands for no integer. -/
  | notNumeric (got : Kind)
  | unexpectedField (owner : Kind) (name : String)
  /-- A name that stands for the record that is being built, given once more. -/
  | repeatedName (owner : Kind) (name : String)
  | missingFields (owner : Kind) (names : List String)
  | notReplaceable
  deriving DecidableEq, Repr

inductive Error where
  | arithmetic (fault : ArithmeticFault)
  | config (fault : ConfigFault)
  | paused (operation : PausedOperation) (mask : Int)
  | mismatch (fault : Mismatch)
  /-- An integer of more digits than are written. -/
  | longInteger
  /-- A literal of more digits than are read. -/
  | longLiteral (digits : Nat)
  /-- A text that is no integer literal. -/
  | badLiteral (text : String)
  /-- The floating-point value that is not a number has no integer. -/
  | notANumber
  /-- An infinite floating-point number has no integer. -/
  | infiniteNumber
  /-- A path with a zero character in it. -/
  | zeroInPath
  /-- Octets of a file that are not UTF-8. -/
  | undecodable (fault : Text.Utf8.Fault)
  /-- An array or object that lies within too many others. -/
  | tooDeep (opened : Json.Container)
  /-- A field that a class does not hold itself. -/
  | missingAttribute (owner : RecordClass) (name : String)
  /-- An amount of more digits than are shown. -/
  | displayRange
  /-- An amount whose exponent in quote units is too great. -/
  | displayOverflow
  deriving DecidableEq, Repr

/-- A failure whose message names an integer. -/
def Error.naming (n : Int) (e : Error) : Error := if Text.IsShort n then e else .longInteger

def Error.ofLimit : Json.Limit → Error
  | .digits count => .longLiteral count
  | .nesting opened => .tooDeep opened

def Width.bounds (w : Width) : String := s!"[{w.lo}, {w.hi}]"

namespace ArithmeticFault

def message : ArithmeticFault → String
  | outOfRange w n => s!"{w.name} out of range: {n} not in {w.bounds}"
  | overflow w n => s!"{w.name} overflow: {n} not in {w.bounds}"
  | divisionByZero w => s!"{w.name} division by zero"
  | lossyCast n target => s!"cast of {n} to {target.name} would lose information"
  | rootDegree n => s!"nth_root: degree must be >= 1 (n={n})"
  | negativeRadicand n => s!"nth_root: negative radicand {n}"
  | field record name n => s!"{record.name}.{name} out of range: {n}"

end ArithmeticFault

namespace ConfigFault

def message : ConfigFault → String
  | notMapping record got => s!"{record.name} expects a mapping, got {got.name}"
  | unknownKeys record keys =>
    s!"unknown {record.name} keys: " ++ ", ".intercalate (keys.map Text.shown)
  | notReferral => "FeeStructure.referral_discount must be a ReferralDiscount"
  | notFiller => "FeeStructure.filler_reward_structure must be an OrderFillerRewardStructure"
  | notInteger record field got => s!"{record.name}.{field} must be an int, got {got.name}"
  | outOfRange record field n => s!"{record.name}.{field} out of u128 range: {n}"
  | unreadable path fault => s!"cannot read fee structure file {path.text}: {fault.message path}"
  | notJson path fault => s!"invalid JSON in fee structure file {path.text}: {fault.message}"

end ConfigFault

namespace Mismatch

/-- Names between apostrophes, with commas and a last conjunction. -/
def enumerate (names : List String) : String :=
  match names.map fun name => s!"'{name}'" with
  | [] => ""
  | [a] => a
  | [a, b] => s!"{a} and {b}"
  | many => ", ".intercalate many.dropLast ++ ", and " ++ many.getLastD ""

def message : Mismatch → String
  | construction w got => s!"{w.name} expects an int, got {got.name}"
  | width w got => s!"expected {w.name} or int, got {got.name}"
  | operand w got =>
    s!"{w.name} arithmetic requires {w.name} or int operands, got {got.name}"
  | unordered order left right =>
    s!"'{order.symbol}' not supported between instances of '{left.name}' and '{right.name}'"
  | castSource got target => s!"cannot cast {got.name} to {target.name}"
  | rootArguments => "nth_root expects int arguments"
  | field record name got => s!"{record.name}.{name} must be an int, got {got.name}"
  | notRecord got => s!"fees_to_dict expects a dataclass instance, got {got.name}"
  | notNumeric got =>
    s!"int() argument must be a string, a bytes-like object or a real number, not '{got.name}'"
  | unexpectedField owner name =>
    s!"{owner.name}.__init__() got an unexpected keyword argument '{Text.shown name}'"
  | repeatedName owner name =>
    s!"{owner.name}.__init__() got multiple values for argument '{name}'"
  | missingFields owner names =>
    s!"{owner.name}.__init__() missing {names.length} required positional argument" ++
      (if names.length = 1 then ": " else "s: ") ++ enumerate names
  | notReplaceable => "replace() should be called on dataclass instances"

end Mismatch

def Text.Utf8.Fault.message (f : Text.Utf8.Fault) : String :=
  let place :=
    if f.length = 1 then
      s!"byte 0x{String.ofList (Text.hexDigits 2 f.octet.toNat)} in position {f.position}"
    else s!"bytes in position {f.position}-{f.position + f.length - 1}"
  let reason :=
    match f.reason with
    | .start => "invalid start byte"
    | .continuation => "invalid continuation byte"
    | .truncated => "unexpected end of data"
  s!"'utf-8' codec can't decode {place}: {reason}"

def digitLimitMessage (found : String) : String :=
  s!"Exceeds the limit ({Text.digitLimit} digits) for integer string conversion{found}; " ++
    "use sys.set_int_max_str_digits() to increase the limit"

def Error.message : Error → String
  | arithmetic fault => fault.message
  | config fault => fault.message
  | paused operation mask => s!"Operation {operation.label} is paused (mask={Mask.text mask})"
  | mismatch fault => fault.message
  | longInteger => digitLimitMessage ""
  | longLiteral digits => digitLimitMessage s!": value has {digits} digits"
  | badLiteral text =>
    "invalid literal for int() with base 10: " ++
      String.ofList ((Text.quotedCodes (Text.codes text)).toList.take 200)
  | notANumber => "cannot convert float NaN to integer"
  | infiniteNumber => "cannot convert float infinity to integer"
  | zeroInPath => "embedded null byte"
  | undecodable fault => fault.message
  | tooDeep opened =>
    "maximum recursion depth exceeded while decoding a JSON " ++
      s!"{opened.name} from a unicode string"
  | missingAttribute owner name => s!"type object '{owner.name}' has no attribute '{name}'"
  | displayRange => "[<class 'decimal.InvalidOperation'>]"
  | displayOverflow => "[<class 'decimal.Overflow'>]"

end ExchangeFees

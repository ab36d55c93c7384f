import ExchangeFees.Width

/-!
The kinds of values, by the names that messages call them.
-/
namespace ExchangeFees

inductive RecordKind where
  | schedule
  | referral
  | filler
  | fill
  | venueFill
  deriving DecidableEq, Repr

def RecordKind.name : RecordKind → String
  | schedule => "FeeStructure"
  | referral => "ReferralDiscount"
  | filler => "OrderFillerRewardStructure"
  | fill => "FillFees"
  | venueFill => "SerumFillFees"

/-- A class of records: the checked integers of a width, or the records of a kind. -/
inductive RecordClass where
  | checked (w : Width)
  | record (kind : RecordKind)
  deriving DecidableEq, Repr

def RecordClass.name : RecordClass → String
  | checked w => w.name
  | record kind => kind.name

inductive Kind where
  | none
  | bool
  | int
  | float
  | text
  | list
  | mapping
  | checked (w : Width)
  | record (r : RecordKind)
  /-- A class in the place of one of its records. -/
  | type
  deriving DecidableEq, Repr

def Kind.name : Kind → String
  | none => "NoneType"
  | bool => "bool"
  | int => "int"
  | float => "float"
  | text => "str"
  | list => "list"
  | mapping => "dict"
  | checked w => w.name
  | record r => r.name
  | type => "type"

inductive Comparison where
  | lt
  | le
  | gt
  | ge
  deriving DecidableEq, Repr

namespace Comparison

def symbol : Comparison → String
  | lt => "<"
  | le => "<="
  | gt => ">"
  | ge => ">="

def holds : Comparison → Int → Int → Bool
  | lt, a, b => a < b
  | le, a, b => a ≤ b
  | gt, a, b => b < a
  | ge, a, b => b ≤ a

end Comparison
end ExchangeFees

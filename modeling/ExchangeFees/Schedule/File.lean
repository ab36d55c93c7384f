import ExchangeFees.Json.Reader
import ExchangeFees.Schedule.Mapping

/-!
Schedules in files. A file is found by its path, its octets are decoded, its line ends unified and
its text read as JSON, and the value makes a schedule as any mapping does. A file that cannot be
read and a text that is not JSON are configuration faults that name the file; octets that are not
UTF-8, a zero character in the path and a limit of the JSON reader are failures of their own.
-/
namespace ExchangeFees

mutual

def Value.ofJson : Json → Value
  | .null => .none
  | .bool b => .bool b
  | .int n => .int n
  | .float x => .float x
  | .text s => .text s
  | .array items => .list (Value.ofItems items)
  | .object members => .mapping (Value.ofMembers members)

def Value.ofItems : List Json → List Value
  | [] => []
  | j :: rest => Value.ofJson j :: Value.ofItems rest

def Value.ofMembers : List (String × Json) → Entries
  | [] => []
  | (name, j) :: rest => (name, Value.ofJson j) :: Value.ofMembers rest

end

/-- What a program finds around it. -/
structure Host where
  /-- What a path leads to: the octets of a file, or why there are none. -/
  contents : Files.Path → Except Files.Fault (List UInt8)
  /-- How many arrays and objects may open within each other. -/
  room : Nat

namespace Schedule

def decodeFile (room : Nat) (path : Files.Path) (octets : List UInt8) : Except Error Json :=
  match Text.Utf8.decode octets with
  | .error fault => .error (.undecodable fault)
  | .ok text =>
    match Json.read room (Text.unifyLineEnds text) with
    | .error (.fault fault) => .error (.config (.notJson path fault))
    | .error (.limit l) => .error (.ofLimit l)
    | .ok json => .ok json

def load (host : Host) (path : Files.Path) : Except Error Schedule :=
  if path.text.toList.contains (Char.ofNat 0) then .error .zeroInPath
  else
    match host.contents path with
    | .error fault => .error (.config (.unreadable path fault))
    | .ok octets => do FeeSchedule.ofMapping (Value.ofJson (← decodeFile host.room path octets))

end Schedule
end ExchangeFees

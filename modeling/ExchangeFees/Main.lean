import ExchangeFees.CommandLine.Response

/-!
The program: prices one fill by its command line and prints the breakdown.
-/
namespace ExchangeFees

def Files.Fault.ofIOError : IO.Error → Files.Fault
  | .inappropriateType _ code _ => if code = 21 then .isFolder else .notFolder
  | .invalidArgument _ _ _ => .nameTooLong
  | .permissionDenied _ code words => .other code.toNat words
  | _ => .missing

def readContents (path : Files.Path) : IO (Except Files.Fault (List UInt8)) := do
  try
    let octets ← IO.FS.readBinFile path.text
    return .ok octets.toList
  catch e => return .error (.ofIOError e)

/-- How many arrays and objects the program has room for within each other. -/
def room : Nat := 992

/-- What the program finds at the path of a schedule, if a command line names one. -/
def hostFor (words : List String) : IO Host := do
  match CommandLine.parse words with
  | .ok (_, settings) =>
    match settings.feeStructure with
    | some path =>
      let found ← readContents path
      return ⟨fun _ => found, room⟩
    | none => return ⟨fun _ => .error .missing, room⟩
  | .error _ => return ⟨fun _ => .error .missing, room⟩

end ExchangeFees

def main (words : List String) : IO UInt32 := do
  let host ← ExchangeFees.hostFor words
  match ExchangeFees.CommandLine.respond host words with
  | .ok r =>
    IO.print r.output
    IO.eprint (if r.exitCode = 2 then r.errors ++ "\n" else r.errors)
    return r.exitCode.toUInt32
  | .error e =>
    IO.eprintln e.message
    return 1

import ExchangeFees.CommandLine.Parser
import ExchangeFees.Fill.Amm
import ExchangeFees.Fill.Matched
import ExchangeFees.Fill.Venue
import ExchangeFees.Guard
import ExchangeFees.Quote
import ExchangeFees.Schedule.File

/-!
What the program answers to a command line. The schedule is read first, then the guard is passed,
then the fees are computed; the first of the three that fails decides. Failures of arithmetic,
configuration and the guard are reported on the error stream with exit code one. Other failures are
not the program's to report. A refused command line has exit code two.
-/
namespace ExchangeFees.CommandLine

inductive Fill where
  | amm (f : AmmFill)
  | matched (f : MatchedFill)
  | venue (f : VenueFill)

def Fill.command : Fill → Command
  | amm _ => .amm
  | matched _ => .matched
  | venue _ => .venue

/-- The fees of a fill, as a record. The record is built like any other, from its fields by name,
and only once the fees are traced. -/
def Fill.fees (s : Schedule) : Fill → Traced Record
  | amm f => do Record.ofEntries (Record.fill (← f.fees s)).fields .fill
  | matched f => do Record.ofEntries (Record.fill (← f.fees s)).fields .fill
  | venue f => do Record.ofEntries (Record.venueFill (← f.fees s)).fields .venueFill

/-- What a command line asks for: a fill, priced by the schedule in a file or the standard one,
under a mask of paused operations, shown in units or in quote. -/
structure Request where
  fill : Fill
  schedulePath : Option Files.Path
  mask : Int
  inQuote : Bool

def Request.ofSettings (c : Command) (a : Settings) : Request where
  fill :=
    let quoteAmount := Value.int (a.quoteAmount.getD 0)
    match c with
    | .amm =>
      .amm { quoteAmount, orderTs := .int a.orderTs, now := .int a.now, rewardFiller := a.rewardFiller,
             rewardReferrer := a.rewardReferrer, surplus := .int a.surplus, postOnly := a.postOnly }
    | .matched =>
      .matched { quoteAmount, orderTs := .int a.orderTs, now := .int a.now,
                 rewardFiller := a.rewardFiller, rewardReferrer := a.rewardReferrer }
    | .venue =>
      .venue { quoteAmount, orderTs := .int a.orderTs, now := .int a.now,
               rewardFiller := a.rewardFiller, venueFee := .int (a.venueFee.getD 0),
               referrerRebate := .int a.referrerRebate, feePool := .int a.feePool }
  schedulePath := a.feeStructure
  mask := a.pausedOps
  inQuote := a.decimal

/-- What the program leaves behind: its exit code and the text on its two streams. -/
structure Response where
  exitCode : Nat
  output : String
  errors : String
  deriving DecidableEq, Repr

def Request.schedule (host : Host) (r : Request) : Except Error Schedule :=
  match r.schedulePath with
  | some path => Schedule.load host path
  | none => .ok Schedule.standard

def Request.fees (host : Host) (r : Request) : Except Error Record := do
  let s ← r.schedule host
  Mask.allowFill r.mask (r.fill.command = .amm)
  (r.fill.fees s).result

/-- A value of the printed object: an integer, or a text of digits, which needs no escapes. -/
def printed : Value → String
  | .int n => String.ofList (Text.ofInt n)
  | .text s => "\"" ++ s ++ "\""
  | _ => "null"

/-- An object over several lines, each member indented by two blanks. -/
def printObject (entries : Entries) : String :=
  let members := entries.map fun e => "  \"" ++ e.1 ++ "\": " ++ printed e.2
  "\x7b\n" ++ ",\n".intercalate members ++ "\n\x7d\n"

def isReported : Error → Bool
  | .arithmetic _ | .config _ | .paused _ _ => true
  | _ => false

def Request.respond (host : Host) (r : Request) : Except Error Response :=
  match r.fees host with
  | .ok record => do
    let amounts ← (Value.record record).amounts r.inQuote
    return ⟨0, printObject (("path", .text r.fill.command.word) :: amounts), ""⟩
  | .error e => if isReported e then .ok ⟨1, "", s!"error: {e.message}\n"⟩ else .error e

/-- The answer to a refused command line; help is no refusal. -/
def Refusal.respond (r : Refusal) : Response :=
  if r.fault = .help then ⟨0, "", ""⟩ else ⟨2, "", r.text⟩

def respond (host : Host) (words : List String) : Except Error Response :=
  match parse words with
  | .ok (c, settings) => (Request.ofSettings c settings).respond host
  | .error refusal => .ok refusal.respond

end ExchangeFees.CommandLine

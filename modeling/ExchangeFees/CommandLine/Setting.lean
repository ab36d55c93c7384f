import ExchangeFees.Files.Path
import ExchangeFees.Text.Numeral
import ExchangeFees.Text.Quoted

/-!
What a command line can set. Three commands price a fill on one of the three paths; they share most
settings, and each setting is a switch or takes one value of a certain form.
-/
namespace ExchangeFees.CommandLine

inductive Command where
  | amm
  | matched
  | venue
  deriving DecidableEq, Repr

def Command.word : Command → String
  | amm => "amm"
  | matched => "match"
  | venue => "serum"

def Command.all : List Command := [amm, matched, venue]

/-- A setting, or the wish for help, which every command line may hold. -/
inductive Setting where
  | help
  | quoteAmount
  | orderTs
  | now
  | rewardFiller
  | feeStructure
  | pausedOps
  | decimal
  | rewardReferrer
  | surplus
  | postOnly
  | venueFee
  | referrerRebate
  | feePool
  deriving DecidableEq, Repr

/-- What a setting takes: nothing, an integer in decimal, an integer that may name its own base, or
a path. -/
inductive Form where
  | switch
  | integer
  | anyBase
  | path
  deriving DecidableEq, Repr

namespace Setting

def spellings : Setting → List String
  | help => ["-h", "--help"]
  | quoteAmount => ["--quote-asset-amount"]
  | orderTs => ["--order-ts"]
  | now => ["--now"]
  | rewardFiller => ["--reward-filler"]
  | feeStructure => ["--fee-structure"]
  | pausedOps => ["--paused-ops"]
  | decimal => ["--decimal"]
  | rewardReferrer => ["--reward-referrer"]
  | surplus => ["--surplus"]
  | postOnly => ["--post-only"]
  | venueFee => ["--serum-fee"]
  | referrerRebate => ["--serum-referrer-rebate"]
  | feePool => ["--fee-pool"]

def name (s : Setting) : String := "/".intercalate s.spellings

def form : Setting → Form
  | help | rewardFiller | decimal | rewardReferrer | postOnly => .switch
  | pausedOps => .anyBase
  | feeStructure => .path
  | _ => .integer

end Setting

/-- The settings of a command, in the order in which messages list them. -/
def Command.settings (c : Command) : List Setting :=
  [.help, .quoteAmount, .orderTs, .now, .rewardFiller, .feeStructure, .pausedOps, .decimal] ++
    match c with
    | amm => [.rewardReferrer, .surplus, .postOnly]
    | matched => [.rewardReferrer]
    | venue => [.venueFee, .referrerRebate, .feePool]

/-- What is set, with the defaults of what is not. -/
structure Settings where
  quoteAmount : Option Int := none
  orderTs : Int := 0
  now : Int := 0
  rewardFiller : Bool := false
  feeStructure : Option Files.Path := none
  pausedOps : Int := 0
  decimal : Bool := false
  rewardReferrer : Bool := false
  surplus : Int := 0
  postOnly : Bool := false
  venueFee : Option Int := none
  referrerRebate : Int := 0
  feePool : Int := 0

/-- Why a command line is refused, or that it asks for help instead. -/
inductive Fault where
  | help
  | missing (names : List String)
  | unknownCommand (word : String)
  | ambiguous (word : String) (candidates : List String)
  | valueExpected (s : Setting)
  | valueIgnored (s : Setting) (value : String)
  | badValue (s : Setting) (value : String)
  | unrecognized (words : List String)
  deriving DecidableEq, Repr

namespace Form

def name : Form → String
  | integer => "int"
  | anyBase => "<lambda>"
  | switch | path => ""

end Form

def Fault.message : Fault → String
  | help => ""
  | missing names => "the following arguments are required: " ++ ", ".intercalate names
  | unknownCommand word =>
    s!"argument path: invalid choice: {Text.quoted word} (choose from " ++
      ", ".intercalate (Command.all.map fun c => Text.quoted c.word) ++ ")"
  | ambiguous word candidates =>
    s!"ambiguous option: {word} could match " ++ ", ".intercalate candidates
  | valueExpected s => s!"argument {s.name}: expected one argument"
  | valueIgnored s value => s!"argument {s.name}: ignored explicit argument {Text.quoted value}"
  | badValue s value => s!"argument {s.name}: invalid {s.form.name} value: {Text.quoted value}"
  | unrecognized words => "unrecognized arguments: " ++ " ".intercalate words

namespace Settings

def turnOn (a : Settings) : Setting → Settings
  | .rewardFiller => { a with rewardFiller := true }
  | .decimal => { a with decimal := true }
  | .rewardReferrer => { a with rewardReferrer := true }
  | .postOnly => { a with postOnly := true }
  | _ => a

def setInteger (a : Settings) (n : Int) : Setting → Settings
  | .quoteAmount => { a with quoteAmount := some n }
  | .orderTs => { a with orderTs := n }
  | .now => { a with now := n }
  | .pausedOps => { a with pausedOps := n }
  | .surplus => { a with surplus := n }
  | .venueFee => { a with venueFee := some n }
  | .referrerRebate => { a with referrerRebate := n }
  | .feePool => { a with feePool := n }
  | _ => a

def give (a : Settings) (s : Setting) (word : String) : Except Fault Settings :=
  let integer (n? : Option Int) : Except Fault Settings :=
    match n? with
    | some n => .ok (a.setInteger n s)
    | none => .error (.badValue s word)
  match s.form with
  | .switch => .ok (a.turnOn s)
  | .integer => integer (Text.integer? word)
  | .anyBase => integer (Text.anyBaseInteger? word)
  | .path => .ok { a with feeStructure := some (Files.Path.parse word) }

/-- The names of the settings that a command cannot do without and that are not set. -/
def unset (a : Settings) (c : Command) : List String :=
  (if a.quoteAmount.isNone then [Setting.quoteAmount.name] else []) ++
    if c = .venue && a.venueFee.isNone then [Setting.venueFee.name] else []

end Settings
end ExchangeFees.CommandLine

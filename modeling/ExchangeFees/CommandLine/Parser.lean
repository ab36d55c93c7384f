import ExchangeFees.CommandLine.Word

/-!
Reading a command line. The words before the command are read first: of those only the wish for help
is known. The command takes all words after it, gives each of its settings the value attached or,
where it needs one and none is, the next word, and passes over words that it does not know. What was
passed over is refused only after everything else was in order.
-/
namespace ExchangeFees.CommandLine

/-- A refused command line: the program that refuses it, as its messages begin, and why. -/
structure Refusal where
  program : String
  fault : Fault
  deriving DecidableEq, Repr

def program : String := "run_fees.py"

/-- The message of a refusal, of which only the last line is kept. -/
def Refusal.text (r : Refusal) : String :=
  let line := s!"{r.program}: error: {r.fault.message}".toList
  String.ofList (line.reverse.takeWhile (· ≠ '\n')).reverse

/-- What a switch does that has a value attached: only help may have letters directly after its
own. -/
def attachedToSwitch (s : Setting) (a : Attached) : Fault :=
  if s = .help && !a.byEquals && a.value.toList.head? ≠ some '-' then .help
  else .valueIgnored s a.value

/-- Takes the words of a command in order, and returns the settings and the words passed over. -/
def take (a : Settings) : List (String × Word) → Except Fault (Settings × List String)
  | [] => .ok (a, [])
  | (_, .names s (some attached)) :: rest =>
    if s.form = .switch then .error (attachedToSwitch s attached)
    else do take (← a.give s attached.value) rest
  | (_, .names s none) :: rest =>
    if s = .help then .error .help
    else if s.form = .switch then take (a.turnOn s) rest
    else
      match rest with
      | (word, .value) :: rest => do take (← a.give s word) rest
      | _ => .error (.valueExpected s)
  | (word, _) :: rest => do
    let (a, passed) ← take a rest
    return (a, word :: passed)

def Command.read (c : Command) (words : List String) : Except Fault (Settings × List String) := do
  let taken ← take {} (← classifyAll c.settings words)
  match taken.1.unset c with
  | [] => return taken
  | names => .error (.missing names)

/-- Splits the words at the command: those passed over before it, and those from it on. -/
def toCommand : List (String × Word) → Except Fault (List String × List String)
  | [] => .ok ([], [])
  | (_, .names _ none) :: _ => .error .help
  | (_, .names s (some attached)) :: _ => .error (attachedToSwitch s attached)
  | (word, .unknown) :: rest => do
    let (passed, words) ← toCommand rest
    return (word :: passed, words)
  | (word, .value) :: rest => .ok ([], word :: rest.map (·.1))
  | (word, .separator) :: rest =>
    if rest.isEmpty then .ok ([word], []) else .ok ([], word :: rest.map (·.1))

def Command.ofWord (word : String) : Except Fault Command :=
  match Command.all.find? (·.word = word) with
  | some c => .ok c
  | none => .error (.unknownCommand word)

def parse (words : List String) : Except Refusal (Command × Settings) := do
  let refuse {α : Type} (program : String) (r : Except Fault α) : Except Refusal α :=
    r.mapError fun fault => ⟨program, fault⟩
  let (passed, words) ← refuse program (do toCommand (← classifyAll [.help] words))
  match words with
  | [] => .error ⟨program, .missing ["path"]⟩
  | word :: rest => do
    let c ← refuse program (Command.ofWord word)
    let (settings, more) ← refuse s!"{program} {c.word}" (c.read rest)
    match passed ++ more with
    | [] => return (c, settings)
    | unrecognized => .error ⟨program, .unrecognized unrecognized⟩

end ExchangeFees.CommandLine

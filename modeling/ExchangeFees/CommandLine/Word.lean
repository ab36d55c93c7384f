import ExchangeFees.CommandLine.Setting

/-!
The words of a command line. A word that begins with a dash names a setting: in full, by the start
of a spelling that no other spelling shares, or with a value attached after an equals sign. Words
that look like negative numbers, words with a blank in them, the lone dash and the empty word name
none; after a word of two dashes no word does.
-/
namespace ExchangeFees.CommandLine

/-- A value attached to the word that names a setting; by an equals sign, or else directly to a
letter. -/
structure Attached where
  value : String
  byEquals : Bool
  deriving DecidableEq, Repr

inductive Word where
  | value
  | separator
  | unknown
  | names (s : Setting) (attached : Option Attached)
  deriving DecidableEq, Repr

/-- The characters before the first equals sign, and after it if there is one. -/
def splitEquals (cs : List Char) : List Char × Option (List Char) :=
  match cs.dropWhile (· ≠ '=') with
  | [] => (cs, none)
  | _ :: after => (cs.takeWhile (· ≠ '='), some after)

/-- Digits of any script, of which there is at least one. -/
def areDigits (cs : List Char) : Bool :=
  !cs.isEmpty && cs.all fun c => (Text.decimalDigit? c).isSome

/-- Whether a word is a dash before digits with an optional point in front of or among them; one
line feed may end it. -/
def looksNegative (cs : List Char) : Bool :=
  match cs with
  | '-' :: rest =>
    let body := if rest.getLast? = some '\n' then rest.dropLast else rest
    areDigits body ||
      match body.dropWhile fun c => (Text.decimalDigit? c).isSome with
      | '.' :: fraction => areDigits fraction
      | _ => false
  | _ => false

def spelled (settings : List Setting) : List (Setting × String) :=
  settings.flatMap fun s => s.spellings.map (s, ·)

/-- The settings that a word may name by the start of a spelling, with what it attaches. -/
def candidates (settings : List Setting) (cs : List Char) :
    List (Setting × String × Option Attached) :=
  match cs with
  | '-' :: '-' :: _ =>
    let parts := splitEquals cs
    let attached := parts.2.map fun v => (⟨String.ofList v, true⟩ : Attached)
    (spelled settings).filterMap fun e =>
      if parts.1.isPrefixOf e.2.toList then some (e.1, e.2, attached) else none
  | '-' :: c :: rest =>
    (spelled settings).filterMap fun e =>
      if e.2.toList = ['-', c] then some (e.1, e.2, some ⟨String.ofList rest, false⟩)
      else if cs.isPrefixOf e.2.toList then some (e.1, e.2, none)
      else none
  | _ => []

def inFull? (settings : List Setting) (spelling : List Char) : Option Setting :=
  ((spelled settings).find? fun e => e.2.toList = spelling).map (·.1)

/-- What a word is to a parser that knows some settings, if no separator came before it. -/
def classify (settings : List Setting) (word : String) : Except Fault Word :=
  let cs := word.toList
  let parts := splitEquals cs
  if cs.head? ≠ some '-' then .ok .value
  else
    match inFull? settings cs with
    | some s => .ok (.names s none)
    | none =>
      if cs.length = 1 then .ok .value
      else
        match parts.2, inFull? settings parts.1 with
        | some v, some s => .ok (.names s (some ⟨String.ofList v, true⟩))
        | _, _ =>
          match candidates settings cs with
          | [c] => .ok (.names c.1 c.2.2)
          | [] => .ok (if looksNegative cs || cs.contains ' ' then .value else .unknown)
          | many => .error (.ambiguous word (many.map (·.2.1)))

def classifyAll (settings : List Setting) : List String → Except Fault (List (String × Word))
  | [] => .ok []
  | word :: rest =>
    if word = "--" then .ok ((word, .separator) :: rest.map (·, .value))
    else do
      let kind ← classify settings word
      return (word, kind) :: (← classifyAll settings rest)

end ExchangeFees.CommandLine

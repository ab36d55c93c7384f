import ExchangeFees.Json.Basic
import ExchangeFees.Text.Codes

/-!
Reading JSON. Each reader takes the characters from its own first one on and returns a value with
the characters after it, which are fewer; a reader that stops says what it missed and how many
characters were left there, or which limit it met. The digits of an integer are counted before it is
made, and an array or object opens only while there is room for one more, whatever it holds. Strings
may hold any character but the control characters below the space, and an escape by code may name a
character above 0xFFFF by its two surrogates; a surrogate without its partner is kept as half of a
pair.
-/
namespace ExchangeFees.Json

inductive Stop where
  /-- What it missed, and how many characters were left. -/
  | missed (cause : Cause) (remaining : Nat)
  | limit (l : Limit)

/-- A value read from the front of `cs`, and the fewer characters after it. -/
structure Parsed (cs : List Char) (α : Type) where
  value : α
  rest : List Char
  shorter : rest.length < cs.length

def isBlank (c : Char) : Bool := c = ' ' || c = '\t' || c = '\n' || c = '\r'

def skipBlanks (cs : List Char) : List Char := cs.dropWhile isBlank

theorem length_skipBlanks_le (cs : List Char) : (skipBlanks cs).length ≤ cs.length :=
  (List.dropWhile_suffix _).length_le

/-- What follows the first character after the blanks is shorter than the whole. -/
theorem length_lt_of_skipBlanks {cs rest : List Char} {c : Char} (h : skipBlanks cs = c :: rest) :
    rest.length < cs.length :=
  Nat.lt_of_lt_of_le (h ▸ Nat.lt_succ_self rest.length) (length_skipBlanks_le cs)

def hexDigit? (c : Char) : Option Nat :=
  if '0' ≤ c && c ≤ '9' then some (c.toNat - '0'.toNat)
  else if 'a' ≤ c && c ≤ 'f' then some (c.toNat - 'a'.toNat + 10)
  else if 'A' ≤ c && c ≤ 'F' then some (c.toNat - 'A'.toNat + 10)
  else none

def hexCode? (a b c d : Char) : Option Nat := do
  return ((← hexDigit? a) * 16 + (← hexDigit? b)) * 256 + ((← hexDigit? c) * 16 + (← hexDigit? d))

/-- The code of the character that a letter after a backslash stands for. -/
def escapeCode? : Char → Option Nat
  | '"' => some 0x22
  | '\\' => some 0x5C
  | '/' => some 0x2F
  | 'b' => some 0x08
  | 'f' => some 0x0C
  | 'n' => some 0x0A
  | 'r' => some 0x0D
  | 't' => some 0x09
  | _ => none

/-- Reads the codes of a string after its opening quote, where `whole` characters were left at the
quote itself. -/
def readCodes (whole : Nat) (cs : List Char) : Except Stop (List Nat × List Char) :=
  match cs with
  | [] => .error (.missed .unterminated whole)
  | '"' :: rest => .ok ([], rest)
  | ['\\'] => .error (.missed .unterminated whole)
  | '\\' :: 'u' :: a :: b :: c :: d :: rest =>
    let here : Stop := .missed .unicodeEscape (rest.length + 5)
    if rest = [] then .error here
    else match hexCode? a b c d with
      | none => .error here
      | some code => do
        let (codes, after) ← readCodes whole rest
        return (code :: codes, after)
  | '\\' :: 'u' :: rest => .error (.missed .unicodeEscape (rest.length + 1))
  | '\\' :: c :: rest =>
    match escapeCode? c with
    | none => .error (.missed .escape (rest.length + 2))
    | some code => do
      let (codes, after) ← readCodes whole rest
      return (code :: codes, after)
  | c :: rest =>
    if c.toNat < 0x20 then .error (.missed .controlCharacter (rest.length + 1))
    else do
      let (codes, after) ← readCodes whole rest
      return (c.toNat :: codes, after)

/-- Codes with the two surrogates of a pair taken together. -/
def joinPairs : List Nat → List Nat
  | high :: low :: rest =>
    if 0xD800 ≤ high && high < 0xDC00 && 0xDC00 ≤ low && low < 0xE000 then
      (0x10000 + (high - 0xD800) * 0x400 + (low - 0xDC00)) :: joinPairs rest
    else high :: joinPairs (low :: rest)
  | codes => codes

theorem length_of_readCodes {whole : Nat} {cs : List Char} {r : List Nat × List Char}
    (h : readCodes whole cs = .ok r) : r.2.length < cs.length := by
  fun_induction readCodes whole cs generalizing r <;>
    simp_all [bind, Except.bind, pure, Except.pure] <;> grind

def readString (cs : List Char) : Except Stop (Parsed cs String) :=
  match h : readCodes (cs.length + 1) cs with
  | .error stop => .error stop
  | .ok r => .ok ⟨Text.ofCodes (joinPairs r.1), r.2, length_of_readCodes h⟩

/-- The integer part at the start of a text, where a leading zero stands alone, and what follows
it. -/
def spanWhole (cs : List Char) : List Char × List Char :=
  match cs with
  | '0' :: rest => (['0'], rest)
  | _ => DecimalNumeral.spanDigits cs

/-- The integer of digits after a sign, if there are not too many. -/
def readWhole (negative : Bool) (digits : List Char) : Except Stop Int :=
  if Text.digitLimit < digits.length then .error (.limit (.digits digits.length))
  else
    let n : Int := Text.natOfDigits digits
    .ok (if negative then -n else n)

/-- Reads a number: an optional minus, an integer part without leading zeros, and then a fraction
and an exponent, each only if complete. -/
def readNumber (cs : List Char) : Except Stop (Parsed cs Json) :=
  let unsigned := if cs.head? = some '-' then cs.tail else cs
  let negative := cs.head? = some '-'
  let whole := spanWhole unsigned
  let fraction := DecimalNumeral.spanFraction whole.2
  let exponent := DecimalNumeral.spanExponent fraction.2
  if h : whole.2.length < cs.length ∧ whole.1 ≠ [] then do
    let value ←
      if fraction.1 = [] && exponent.1 = none then Json.int <$> readWhole negative whole.1
      else .ok (.float
        (DecimalNumeral.toBinary64 ⟨negative, whole.1, fraction.1, exponent.1.getD 0⟩))
    return ⟨value, exponent.2, Nat.lt_of_le_of_lt
      (Nat.le_trans (DecimalNumeral.length_spanExponent_le _)
        (DecimalNumeral.length_spanFraction_le _))
      h.1⟩
  else .error (.missed .value cs.length)

mutual

/-- Reads a value from its first character, with room for so many arrays and objects within each
other. -/
def readValue (room : Nat) (cs : List Char) : Except Stop (Parsed cs Json) :=
  match cs with
  | '"' :: rest => do
    let s ← readString rest
    return ⟨.text s.value, s.rest, Nat.lt_succ_of_lt s.shorter⟩
  | '{' :: rest =>
    match room with
    | 0 => .error (.limit (.nesting .object))
    | room + 1 =>
      have hr := length_skipBlanks_le rest
      match h : skipBlanks rest with
      | '}' :: after => .ok ⟨.object [], after, Nat.lt_succ_of_lt (length_lt_of_skipBlanks h)⟩
      | _ => do
        let r ← readMembers room [] (skipBlanks rest)
        return ⟨.object r.value, r.rest, Nat.lt_succ_of_lt (Nat.lt_of_lt_of_le r.shorter hr)⟩
  | '[' :: rest =>
    match room with
    | 0 => .error (.limit (.nesting .array))
    | room + 1 =>
      have hr := length_skipBlanks_le rest
      match h : skipBlanks rest with
      | ']' :: after => .ok ⟨.array [], after, Nat.lt_succ_of_lt (length_lt_of_skipBlanks h)⟩
      | _ => do
        let r ← readItems room (skipBlanks rest)
        return ⟨.array r.value, r.rest, Nat.lt_succ_of_lt (Nat.lt_of_lt_of_le r.shorter hr)⟩
  | 'n' :: 'u' :: 'l' :: 'l' :: rest => .ok ⟨.null, rest, by simp only [List.length_cons]; omega⟩
  | 't' :: 'r' :: 'u' :: 'e' :: rest =>
    .ok ⟨.bool true, rest, by simp only [List.length_cons]; omega⟩
  | 'f' :: 'a' :: 'l' :: 's' :: 'e' :: rest =>
    .ok ⟨.bool false, rest, by simp only [List.length_cons]; omega⟩
  | 'N' :: 'a' :: 'N' :: rest => .ok ⟨.float .nan, rest, by simp only [List.length_cons]; omega⟩
  | 'I' :: 'n' :: 'f' :: 'i' :: 'n' :: 'i' :: 't' :: 'y' :: rest =>
    .ok ⟨.float (.infinite false), rest, by simp only [List.length_cons]; omega⟩
  | '-' :: 'I' :: 'n' :: 'f' :: 'i' :: 'n' :: 'i' :: 't' :: 'y' :: rest =>
    .ok ⟨.float (.infinite true), rest, by simp only [List.length_cons]; omega⟩
  | cs => readNumber cs
termination_by 2 * cs.length
decreasing_by all_goals (simp only [List.length_cons]; omega)

/-- Reads the members of an object from the first name on, after those in `members`. -/
def readMembers (room : Nat) (members : List (String × Json)) (cs : List Char) :
    Except Stop (Parsed cs (List (String × Json))) :=
  match cs with
  | '"' :: rest => do
    let name ← readString rest
    have hn := name.shorter
    match hc : skipBlanks name.rest with
    | ':' :: afterColon => do
      have h1 := length_lt_of_skipBlanks hc
      have h2 := length_skipBlanks_le afterColon
      let v ← readValue room (skipBlanks afterColon)
      have h3 := v.shorter
      match hv : skipBlanks v.rest with
      | '}' :: after =>
        have h4 := length_lt_of_skipBlanks hv
        return ⟨put name.value v.value members, after, by simp only [List.length_cons]; omega⟩
      | ',' :: afterComma => do
        have h4 := length_lt_of_skipBlanks hv
        have h5 := length_skipBlanks_le afterComma
        let r ← readMembers room (put name.value v.value members) (skipBlanks afterComma)
        have h6 := r.shorter
        return ⟨r.value, r.rest, by simp only [List.length_cons]; omega⟩
      | other => .error (.missed .comma other.length)
    | other => .error (.missed .colon other.length)
  | other => .error (.missed .propertyName other.length)
termination_by 2 * cs.length + 1
decreasing_by all_goals (simp only [List.length_cons]; omega)

def readItems (room : Nat) (cs : List Char) : Except Stop (Parsed cs (List Json)) := do
  let v ← readValue room cs
  have h1 := v.shorter
  match hv : skipBlanks v.rest with
  | ']' :: after =>
    have h2 := length_lt_of_skipBlanks hv
    return ⟨[v.value], after, by omega⟩
  | ',' :: afterComma => do
    have h2 := length_lt_of_skipBlanks hv
    have h3 := length_skipBlanks_le afterComma
    let r ← readItems room (skipBlanks afterComma)
    have h4 := r.shorter
    return ⟨v.value :: r.value, r.rest, by omega⟩
  | other => .error (.missed .comma other.length)
termination_by 2 * cs.length + 1
decreasing_by all_goals omega

end

def Stop.failure (text : List Char) : Stop → Failure
  | .missed cause remaining => .fault (.locate text cause (text.length - remaining))
  | .limit l => .limit l

/-- Reads a text that holds one value with blanks around it, with room for so many arrays and
objects within each other. -/
def read (room : Nat) (text : List Char) : Except Failure Json :=
  if text.head? = some '\uFEFF' then .error (.fault (.locate text .byteOrderMark 0))
  else
    match readValue room (skipBlanks text) with
    | .error stop => .error (stop.failure text)
    | .ok v =>
      match skipBlanks v.rest with
      | [] => .ok v.value
      | rest => .error (.fault (.locate text .extraData (text.length - rest.length)))

end ExchangeFees.Json

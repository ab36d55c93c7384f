/-!
Texts by the codes of their characters. Half of a surrogate pair has a code and is no character; a
text keeps it as two characters, a mark and the character 0x100000 above its code. The mark is the
last of all characters, and where it stands for itself it is doubled. So every sequence of codes is
kept by a text of its own, and all but halves and marks stand for themselves.
-/
namespace ExchangeFees.Text

def mark : Char := Char.ofNat 0x10FFFF

/-- Whether a code is half of a surrogate pair. -/
def isHalf (code : Nat) : Bool := 0xD800 ≤ code && code < 0xE000

/-- The characters that keep a code. -/
def keep (code : Nat) : List Char :=
  if isHalf code then [mark, Char.ofNat (code + 0x100000)]
  else if code = mark.toNat then [mark, mark]
  else [Char.ofNat code]

def ofCodes (codes : List Nat) : String := String.ofList (codes.flatMap keep)

/-- The codes that characters keep. -/
def codesOf : List Char → List Nat
  | [] => []
  | c :: rest =>
    if c = mark then
      match rest with
      | [] => [c.toNat]
      | d :: rest => (if d = mark then mark.toNat else d.toNat - 0x100000) :: codesOf rest
    else c.toNat :: codesOf rest

def codes (s : String) : List Nat := codesOf s.toList

end ExchangeFees.Text

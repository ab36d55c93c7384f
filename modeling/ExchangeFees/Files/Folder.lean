import ExchangeFees.Files.Path
import ExchangeFees.Text.Quoted

/-!
Reading a file of a folder. A folder is the files in it, each under its names from the folder down;
a name that leads on to a file is itself a folder. Outside the folder nothing is known but that the
folders above it are there. A path is walked name by name, and the first name that leads nowhere
decides the fault.
-/
namespace ExchangeFees.Files

/-- Why a path has no content to read. -/
inductive Fault where
  | missing
  | notFolder
  | isFolder
  | nameTooLong
  /-- Whatever else the system holds against reading it, as the system numbers and words it. -/
  | other (number : Nat) (words : String)
  deriving DecidableEq, Repr

namespace Fault

def code : Fault → Nat
  | missing => 2
  | notFolder => 20
  | isFolder => 21
  | nameTooLong => 36
  | other number _ => number

def wording : Fault → String
  | missing => "No such file or directory"
  | notFolder => "Not a directory"
  | isFolder => "Is a directory"
  | nameTooLong => "File name too long"
  | other _ words => words

def message (f : Fault) (p : Path) : String :=
  s!"[Errno {f.code}] {f.wording}: {Text.quoted p.text}"

end Fault

/-- The files in a folder, each under its names from the folder down. -/
structure Folder where
  files : List (List String × List UInt8)

namespace Folder

/-- The greatest size of a name, in octets. -/
def greatestName : Nat := 255

/-- The greatest size of a path, in octets. -/
def greatestPath : Nat := 4095

def readOutside : List String → Except Fault (List UInt8)
  | [] => .error .isFolder
  | name :: rest =>
    if name = ".." then readOutside rest
    else if greatestName < name.utf8ByteSize then .error .nameTooLong
    else .error .missing

/-- Walks names from a place in the folder, given by its own names. -/
def readFrom (f : Folder) (place : List String) : List String → Except Fault (List UInt8)
  | [] => .error .isFolder
  | name :: rest =>
    if name = ".." then
      if place = [] then readOutside rest else readFrom f place.dropLast rest
    else if greatestName < name.utf8ByteSize then .error .nameTooLong
    else
      let here := place ++ [name]
      match f.files.lookup here with
      | some content => if rest = [] then .ok content else .error .notFolder
      | none =>
        if f.files.any fun file => here.isPrefixOf file.1 then readFrom f here rest
        else .error .missing

def read (f : Folder) (p : Path) : Except Fault (List UInt8) :=
  if greatestPath < p.text.utf8ByteSize then .error .nameTooLong
  else if p.root = "" then f.readFrom [] p.names
  else readOutside p.names

end Folder
end ExchangeFees.Files

/-!
File paths in their printed form. A path is a root, if it has one, and the names under it; empty
names and single dots say nothing and are left out, while double dots stay. Exactly two leading
slashes are a root of their own, and a path with neither root nor names prints as a single dot.
-/
namespace ExchangeFees.Files

/-- A path: its root, which is empty for a relative path, and the names under it. -/
structure Path where
  root : String
  names : List String
  deriving DecidableEq, Repr

namespace Path

def rootOf : List Char → String
  | '/' :: '/' :: '/' :: _ => "/"
  | '/' :: '/' :: _ => "//"
  | '/' :: _ => "/"
  | _ => ""

def splitSlashes : List Char → List (List Char)
  | [] => [[]]
  | '/' :: rest => [] :: splitSlashes rest
  | c :: rest =>
    match splitSlashes rest with
    | first :: others => (c :: first) :: others
    | [] => [[c]]

def parse (s : String) : Path :=
  let names := (splitSlashes s.toList).filter fun name => name ≠ [] && name ≠ ['.']
  ⟨rootOf s.toList, names.map String.ofList⟩

def text (p : Path) : String :=
  if p.root = "" && p.names = [] then "." else p.root ++ "/".intercalate p.names

end Path
end ExchangeFees.Files

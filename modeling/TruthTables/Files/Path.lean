namespace TruthTables

structure Path where
  -- What an absolute path begins with: a slash, or exactly two of them.
  root : String
  parts : List String
  deriving DecidableEq, Repr

namespace Path

def splitParts (chars : List Char) : List String :=
  go [] chars
where
  go (part : List Char) : List Char → List String
    | [] => [String.ofList part.reverse]
    | c :: rest => if c = '/' then String.ofList part.reverse :: go [] rest else go (c :: part) rest

def ofText (text : String) : Path :=
  let chars := text.toList
  let slashes := (chars.takeWhile (· == '/')).length
  { root := if slashes = 0 then "" else if slashes = 2 then "//" else "/"
    parts := (splitParts chars).filter fun part => part != "" && part != "." }

def text (p : Path) : String :=
  let joined := p.root ++ "/".intercalate p.parts
  if joined.isEmpty then "." else joined

def isAbsolute (p : Path) : Bool := !p.root.isEmpty

end Path

end TruthTables

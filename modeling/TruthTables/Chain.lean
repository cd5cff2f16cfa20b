namespace TruthTables

def joinTerms (glyph front term : String) : String := "(" ++ front ++ glyph ++ term ++ ")"

def chain (glyph : String) : List String → String
  | [] => ""
  | first :: rest => rest.foldl (joinTerms glyph) first

end TruthTables

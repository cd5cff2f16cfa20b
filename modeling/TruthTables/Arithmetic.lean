namespace TruthTables

inductive ArithmeticError where
  | kinds (operator : Char) (left right : String)
  | beyondFloat
  | beyondLength
  | textTooLong
  | memory
  deriving DecidableEq, Repr

def ArithmeticError.message : ArithmeticError → String
  | kinds operator left right =>
    "unsupported operand type(s) for " ++ operator.toString ++ ": '" ++ left ++ "' and '" ++ right
      ++ "'"
  | beyondFloat => "int too large to convert to float"
  | beyondLength => "cannot fit 'int' into an index-sized integer"
  | textTooLong => "repeated string is too long"
  | memory => ""

def lengthBound : Nat := Nat.pow 2 63

end TruthTables

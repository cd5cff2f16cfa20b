import TruthTables.Token.Lexer
import TruthTables.Word

namespace TruthTables

inductive Fragment where
  | negation (operand : Expr)
  | begun (first : Expr)
  | operator (first : Expr) (c : Connective)
  | application (first : Expr) (c : Connective) (second : Expr)
  deriving DecidableEq, Repr

def Fragment.text : Fragment → String
  | negation operand => "(" ++ negationSymbol ++ operand.text
  | begun first => "(" ++ first.text
  | operator first c => "(" ++ first.text ++ c.symbol
  | application first c second => "(" ++ first.text ++ c.symbol ++ second.text

inductive FormulaError where
  | illegal (char : Char) (position : Nat)
  | word (error : WordError)
  | nothingNegated
  | nothingOpened (next : Option Token)
  | noOperator (first : Expr) (next : Option Token)
  | noOperand (first : Expr) (c : Connective) (next : Option Token)
  | unclosed (read : Fragment)
  | unexpected (next : Token) (read : Option Expr)
  | noVariable
  deriving DecidableEq, Repr

def describeNext : Option Token → String
  | none => "end of formula"
  | some token => "'" ++ token.text ++ "'"

def WordError.message : WordError → String
  | malformed shown => "Invalid atomic '" ++ shown ++ "'"
  | reserved name => "Atomic name '" ++ name ++ "' is reserved"

def Illegal.message (illegal : Illegal) : String :=
  "Illegal character '" ++ illegal.char.toString ++ "' encountered at position "
    ++ toString illegal.position

namespace FormulaError

def message : FormulaError → String
  | illegal char position => Illegal.message ⟨char, position⟩
  | word error => error.message
  | nothingNegated => "No operand found for operator '" ++ negationSymbol ++ "'"
  | nothingOpened next => "No operand found after opening bracket" ++ instead next
  | noOperator first next => "No operator found" ++ after (.begun first) ++ instead next
  | noOperand first c next => "No operand found" ++ after (.operator first c) ++ instead next
  | unclosed read => "No closing bracket found" ++ after read
  | unexpected next none => "Unexpected '" ++ next.text ++ "'"
  | unexpected next (some read) => "Unexpected '" ++ next.text ++ "' after '" ++ read.text ++ "'"
  | noVariable => "The formula is invalid or empty"
where
  after (read : Fragment) : String := " after '" ++ read.text ++ "'"
  instead (next : Option Token) : String := " (unexpected " ++ describeNext next ++ ")"

end FormulaError

end TruthTables

import TruthTables.Connective

namespace TruthTables

inductive Token where
  | not
  | connective (c : Connective)
  | opening
  | closing
  -- A run of letters and digits; whether it is well formed is not decided here.
  | word (text : String)
  deriving DecidableEq, Repr

namespace Token

def text : Token → String
  | not => negationSymbol
  | connective c => c.symbol
  | opening => "("
  | closing => ")"
  | word text => text

def kind : Token → String
  | not => "NOT"
  | connective .and => "AND"
  | connective .or => "OR"
  | connective .implies => "IMPLIES"
  | connective .equiv => "EQUIV"
  | opening => "LPAREN"
  | closing => "RPAREN"
  | word _ => "ATOM"

def ofGlyph? (c : Char) : Option Token :=
  if c = negationGlyph then some not
  else if c = '(' then some opening
  else if c = ')' then some closing
  else (Connective.ofGlyph? c).map connective

end Token

structure Lexeme where
  token : Token
  index : Nat
  deriving DecidableEq, Repr

end TruthTables

import TruthTables.Decimal.Layout
import TruthTables.Numeral
import TruthTables.Text.Quoted

namespace TruthTables

inductive Value where
  | null
  | bool (value : Bool)
  | int (value : Int)
  | float (value : Float)
  | text (value : String)
  | list (items : List Value)
  deriving Repr, BEq, Inhabited

namespace Value

-- The bit that a value equals as a number, if it is one: zero and one may be written as integers,
-- as Booleans or with a point.
def bit? : Value → Option Bool
  | bool value => some value
  | int value => if value = 0 then some false else if value = 1 then some true else none
  | float value => if value == 0 then some false else if value == 1 then some true else none
  | null | text _ | list _ => none

-- An integer or a Boolean stands for a truth value, any other value for one that is not known yet.
-- An integer is true unless it is zero.
def known? : Value → Option Bool
  | bool value => some value
  | int value => some (value != 0)
  | null | float _ | text _ | list _ => none

def isConcrete (value : Value) : Bool := value.known?.isSome

def isTrue : Value → Bool
  | null => false
  | bool value => value
  | int value => value != 0
  | float value => value != 0
  | text value => value != ""
  | list items => !items.isEmpty

def kind : Value → String
  | null => "NoneType"
  | bool _ => "bool"
  | int _ => "int"
  | float _ => "float"
  | text _ => "str"
  | list _ => "list"

mutual

def written : Value → Except NumeralError String
  | null => .ok "None"
  | bool value => .ok (if value then "True" else "False")
  | int value => numeral value
  | float value => .ok (Decimal.text value)
  | text value => .ok (Text.quote value)
  | list items => (writtenItems items).map (Text.bracketed "[" "]")

def writtenItems : List Value → Except NumeralError (List String)
  | [] => .ok []
  | item :: rest =>
    match item.written with
    | .error error => .error error
    | .ok first => (writtenItems rest).map (first :: ·)

end

def shown : Value → Except NumeralError String
  | text value => .ok value
  | value => value.written

end Value

end TruthTables

import TruthTables.Arithmetic
import TruthTables.Value

namespace TruthTables

def mostItems : Nat := Nat.pow 2 30

def nearestFloat (n : Int) : Except ArithmeticError Float :=
  let x := Float.ofInt n
  if x.isInf then .error .beyondFloat else .ok x

def repeatText (count : Nat) (text : String) : Except ArithmeticError String :=
  if lengthBound ≤ count then .error .beyondLength
  else if lengthBound ≤ text.length * count then .error .textTooLong
  else if mostItems < text.length * count then .error .memory
  else if text.isEmpty then .ok ""
  else .ok (String.join (List.replicate count text))

def repeatItems {α : Type} (count : Nat) (items : List α) : Except ArithmeticError (List α) :=
  if lengthBound ≤ count then .error .beyondLength
  else if mostItems < items.length * count then .error .memory
  else if items.isEmpty then .ok []
  else .ok (List.replicate count items).flatten

namespace Value

def times (count : Nat) : Value → Except ArithmeticError Value
  | int value => .ok (int (value * count))
  | bool value => .ok (int (if value then count else 0))
  | float value => (nearestFloat count).map fun factor => float (value * factor)
  | text value => (repeatText count value).map text
  | list items => (repeatItems count items).map list
  | null => .error (.kinds '*' null.kind "int")

def add : Value → Value → Except ArithmeticError Value
  | int a, int b => .ok (int (a + b))
  | int a, bool b => .ok (int (a + if b then 1 else 0))
  | int a, float b => (nearestFloat a).map fun a => float (a + b)
  | float a, int b => (nearestFloat b).map fun b => float (a + b)
  | float a, bool b => .ok (float (a + if b then 1 else 0))
  | float a, float b => .ok (float (a + b))
  | a, b => .error (.kinds '+' a.kind b.kind)

def addAll (total : Value) : List Value → Except ArithmeticError Value
  | [] => .ok total
  | value :: rest =>
    match add total value with
    | .error error => .error error
    | .ok total => addAll total rest

end Value

-- The weight of a cell is the cell times two to the number of cells after it.
def weights : List Value → Except ArithmeticError (List Value)
  | [] => .ok []
  | cell :: rest =>
    match cell.times (Nat.pow 2 rest.length) with
    | .error error => .error error
    | .ok weight =>
      match weights rest with
      | .error error => .error error
      | .ok tail => .ok (weight :: tail)

end TruthTables

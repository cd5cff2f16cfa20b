import TruthTables.Entries
import TruthTables.Table.Weight
import TruthTables.Word

namespace TruthTables

structure Table where
  names : List String
  columns : Entries (List Value)
  disjunctive : String
  conjunctive : String
  positive : Nat
  negative : Nat
  total : Int
  deriving Repr, BEq

inductive TableError where
  | missingColumn (title : String)
  | shortColumn
  | arithmetic (error : ArithmeticError)
  | negativeSize
  | hugeSize
  deriving DecidableEq, Repr

def TableError.message : TableError → String
  | missingColumn title => Text.quote title
  | shortColumn => "list index out of range"
  | arithmetic error => error.message
  | negativeSize => "__len__() should return >= 0"
  | hugeSize => ArithmeticError.beyondLength.message

namespace Table

def column (t : Table) (title : String) : Except TableError (List Value) :=
  match t.columns.get? title with
  | some cells => .ok cells
  | none => .error (.missingColumn title)

def result (t : Table) : Except TableError (List Value) := t.column Word.resultTitle

def weight (t : Table) : Except TableError (List Value) := t.column Word.weightTitle

def cell (t : Table) (title : String) (row : Nat) : Except TableError Value :=
  match t.column title with
  | .error error => .error error
  | .ok cells =>
    match cells[row]? with
    | some value => .ok value
    | none => .error .shortColumn

def size (t : Table) : Except TableError Nat :=
  if t.total < 0 then .error .negativeSize
  else if (lengthBound : Int) ≤ t.total then .error .hugeSize
  else .ok t.total.toNat

def rowAt (columns : Entries (List Value)) (row : Nat) : Except TableError (Entries Value) :=
  match columns with
  | [] => .ok []
  | (title, cells) :: rest =>
    match cells[row]? with
    | none => .error .shortColumn
    | some value =>
      match rowAt rest row with
      | .error error => .error error
      | .ok values => .ok ((title, value) :: values)

def rowsFrom (columns : Entries (List Value)) (row : Nat) :
    Nat → Except TableError (List (Entries Value))
  | 0 => .ok []
  | count + 1 =>
    match rowAt columns row with
    | .error error => .error error
    | .ok values =>
      match rowsFrom columns (row + 1) count with
      | .error error => .error error
      | .ok later => .ok (values :: later)

def rows (t : Table) : Except TableError (List (Entries Value)) :=
  rowsFrom t.columns 0 t.total.toNat

end Table

end TruthTables

import TruthTables.Assignment.Enumeration
import TruthTables.Chain
import TruthTables.Table.Basic
import TruthTables.Valuation

namespace TruthTables

inductive BuildError where
  | unfinished (error : Unfinished)
  | unknownKey (key : String)
  | count (error : ArithmeticError)
  | weight (error : ArithmeticError)
  deriving DecidableEq, Repr

def BuildError.message : BuildError → String
  | unfinished _ => ""
  | unknownKey key => (TableError.missingColumn key).message
  | count error | weight error => error.message

structure Row where
  assignment : Assignment
  cells : List (String × TruthValue)
  result : TruthValue
  deriving DecidableEq, Repr

namespace Row

def gather (entries : Entries TruthValue) :
    List String → Except BuildError (List (String × TruthValue))
  | [] => .ok []
  | key :: rest =>
    match entries.get? key with
    | none => .error (.unknownKey key)
    | some value =>
      match gather entries rest with
      | .error error => .error error
      | .ok cells => .ok ((key, value) :: cells)

def ofAssignment (root : Expr) (keys : List String) (assignment : Assignment) :
    Except BuildError Row :=
  match root.evaluate assignment false with
  | .error error => .error (.unfinished error)
  | .ok evaluation =>
    match gather evaluation.entries keys with
    | .error error => .error error
    | .ok cells => .ok ⟨assignment, cells, evaluation.result⟩

def isTrue (row : Row) : Bool := row.result.cell.isTrue

def literal (row : Row) (name : String) : String :=
  if (row.assignment.get? name).map TruthValue.ofBit = some row.result then name
  else "(" ++ negationSymbol ++ name ++ ")"

def term (row : Row) (names : List String) : String :=
  let glyph := if row.isTrue then Connective.and.symbol else Connective.or.symbol
  chain glyph (names.map row.literal)

end Row

def rowsOf (root : Expr) (keys : List String) : List Assignment → Except BuildError (List Row)
  | [] => .ok []
  | assignment :: rest =>
    match Row.ofAssignment root keys assignment with
    | .error error => .error error
    | .ok row =>
      match rowsOf root keys rest with
      | .error error => .error error
      | .ok rows => .ok (row :: rows)

namespace Table

def gatherColumn (rows : List Row) (title : String) : List TruthValue :=
  rows.flatMap fun row =>
    (row.cells ++ [(Word.resultTitle, row.result)]).filterMap fun (key, value) =>
      if key = title then some value else none

-- The columns of the keys and that of the results, and last the weights of the results. A key that
-- is the title of one of these shares the column.
def columnsOf (keys : List String) (rows : List Row) :
    Except ArithmeticError (Entries (List Value)) :=
  let titles := keys ++ [Word.resultTitle]
  let columns := Entries.ofPairs (titles.map fun title => (title, ()))
  let filled := columns.map fun (title, _) =>
    (title, (gatherColumn rows title).map TruthValue.cell)
  (weights ((gatherColumn rows Word.resultTitle).map TruthValue.cell)).map
    (Entries.set filled Word.weightTitle)

def ofRows (names keys : List String) (rows : List Row) (total : Nat) :
    Except ArithmeticError Table :=
  let trueRows := rows.filter (·.isTrue)
  let falseRows := rows.filter (!·.isTrue)
  (columnsOf keys rows).map fun columns =>
    { names, columns
      disjunctive := chain Connective.or.symbol (trueRows.map (·.term names))
      conjunctive := chain Connective.and.symbol (falseRows.map (·.term names))
      positive := trueRows.length
      negative := falseRows.length
      total }

def chosenKeys (names keys : List String) : List String := if keys.isEmpty then names else keys

-- The table of an expression over the given variables, with a column for each of the given keys.
-- The rows are counted before the first of them is made.
def build (root : Expr) (names keys : List String) : Except BuildError Table :=
  match Assignment.countAll names with
  | .error error => .error (.count error)
  | .ok total =>
    match rowsOf root (chosenKeys names keys) (Assignment.all names) with
    | .error error => .error error
    | .ok rows => (ofRows names (chosenKeys names keys) rows total).mapError .weight

end Table

end TruthTables

import TruthTables.Connective
import TruthTables.Table.Basic

namespace TruthTables

-- Which rows a normal form has terms for: a disjunction lists the true ones, a conjunction the
-- false ones.
inductive Polarity where
  | disjunctive
  | conjunctive
  deriving DecidableEq, Repr

namespace Polarity

def result : Polarity → Bool
  | disjunctive => true
  | conjunctive => false

def inner : Polarity → Connective
  | disjunctive => .and
  | conjunctive => .or

def outer : Polarity → Connective
  | disjunctive => .or
  | conjunctive => .and

def sign : Polarity → String
  | disjunctive => "V"
  | conjunctive => "Λ"

end Polarity

namespace Table

def matching (wanted : Bool) (row : Nat) : List Value → List Nat
  | [] => []
  | value :: rest =>
    if value.isTrue = wanted then row :: matching wanted (row + 1) rest
    else matching wanted (row + 1) rest

def matchingRows (t : Table) (polarity : Polarity) : Except TableError (List Nat) :=
  t.result.map (matching polarity.result 0)

def displayLiteral (t : Table) (polarity : Polarity) (row : Nat) (name : String) :
    Except TableError String :=
  (t.cell name row).map fun value =>
    if value.isTrue = polarity.result then name else negationSymbol ++ name

def displayLiterals (t : Table) (polarity : Polarity) (row : Nat) :
    List String → Except TableError (List String)
  | [] => .ok []
  | name :: rest =>
    match t.displayLiteral polarity row name with
    | .error error => .error error
    | .ok literal => (t.displayLiterals polarity row rest).map (literal :: ·)

def displayTerm (t : Table) (polarity : Polarity) (row : Nat) : Except TableError String :=
  (t.displayLiterals polarity row t.names).map
    (" " ++ polarity.inner.symbol ++ " ").intercalate

def displayTerms (t : Table) (polarity : Polarity) : List Nat → Except TableError (List String)
  | [] => .ok []
  | row :: rest =>
    match t.displayTerm polarity row with
    | .error error => .error error
    | .ok term => (t.displayTerms polarity rest).map (term :: ·)

def display (t : Table) (polarity : Polarity) : Except TableError String :=
  match t.matchingRows polarity with
  | .error error => .error error
  | .ok rows =>
    (t.displayTerms polarity rows).map ("  " ++ polarity.outer.symbol ++ "  ").intercalate

def displayRows (t : Table) (polarity : Polarity) : Except TableError String :=
  (t.matchingRows polarity).map fun rows =>
    polarity.sign ++ "(" ++ ",".intercalate (rows.map toString) ++ ")"

def index (t : Table) : Except TableError Value :=
  match t.weight with
  | .error error => .error error
  | .ok weights => ((Value.int 0).addAll weights).mapError .arithmetic

end Table

end TruthTables

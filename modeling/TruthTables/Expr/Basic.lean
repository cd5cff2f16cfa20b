import TruthTables.Connective

namespace TruthTables

inductive Expr where
  | atom (name : String)
  | const (value : Int)
  | not (operand : Expr)
  | binary (connective : Connective) (left right : Expr)
  | pair (left right : Expr)
  | hole
  deriving DecidableEq, Repr

structure Unfinished where
  deriving DecidableEq, Repr

namespace Expr

def text : Expr → String
  | atom name => name
  | const value => toString value
  | not operand => "(" ++ negationSymbol ++ operand.text ++ ")"
  | binary c left right => "(" ++ left.text ++ c.symbol ++ right.text ++ ")"
  | pair left right => "(" ++ left.text ++ right.text ++ ")"
  | hole => ""

def isSpelled : Expr → Bool
  | atom _ | const _ => true
  | not operand => operand.isSpelled
  | binary _ left right | pair left right => left.isSpelled && right.isSpelled
  | hole => false

def isFinished : Expr → Bool
  | atom _ | const _ => true
  | not operand => operand.isFinished
  | binary _ left right => left.isFinished && right.isFinished
  | pair _ _ | hole => false

def text? (e : Expr) : Except Unfinished String :=
  if e.isSpelled then .ok e.text else .error {}

def symbol? : Expr → Option String
  | atom _ | const _ | hole => none
  | not _ => some negationSymbol
  | binary c _ _ => some c.symbol
  | pair _ _ => some ""

def kind : Expr → String
  | atom _ => "Atomic"
  | const _ => "Constant"
  | not _ => "Not"
  | binary .and _ _ => "And"
  | binary .or _ _ => "Or"
  | binary .implies _ _ => "Implies"
  | binary .equiv _ _ => "Equiv"
  | pair _ _ => "BinaryOp"
  | hole => "Expr"

def names : Expr → List String
  | atom name => [name]
  | const _ | hole => []
  | not operand => operand.names
  | binary _ left right | pair left right => left.names ++ right.names

theorem isSpelled_of_isFinished {e : Expr} (finished : e.isFinished) : e.isSpelled := by
  induction e with
  | atom | const => rfl
  | not operand ih => exact ih finished
  | binary c left right ihLeft ihRight =>
    simp only [isFinished, Bool.and_eq_true] at finished
    simp [isSpelled, ihLeft finished.1, ihRight finished.2]
  | pair | hole => cases finished

end Expr

end TruthTables

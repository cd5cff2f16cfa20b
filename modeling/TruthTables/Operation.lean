import TruthTables.Valuation

namespace TruthTables

inductive OperationError where
  | unknownUnary (symbol : String)
  | unknownBinary (symbol : String)
  deriving DecidableEq, Repr

def OperationError.message : OperationError → String
  | unknownUnary symbol => "Invalid unary operator '" ++ symbol ++ "'"
  | unknownBinary symbol => "Invalid operator '" ++ symbol ++ "'"

def Connective.ofSymbol? (symbol : String) : Option Connective :=
  match symbol.toList with
  | [glyph] => ofGlyph? glyph
  | _ => none

def solveUnary (symbol : String) (operand : Value) : Except OperationError (Option Bool) :=
  if symbol = negationSymbol then .ok (operand.known?.map not) else .error (.unknownUnary symbol)

def solveBinary (first : Value) (symbol : String) (second : Value) :
    Except OperationError (Option Bool) :=
  match Connective.ofSymbol? symbol with
  | none => .error (.unknownBinary symbol)
  | some c => .ok (c.solve first.known? second.known?)

@[simp] theorem TruthValue.known?_cell (value : TruthValue) : value.cell.known? = value.bit? := by
  cases value <;> rfl

theorem solveUnary_cell (value : TruthValue) :
    solveUnary negationSymbol value.cell = .ok (value.bit?.map not) := by
  rw [solveUnary, if_pos rfl, value.known?_cell]

theorem solveBinary_cell (c : Connective) (first second : TruthValue) :
    solveBinary first.cell c.symbol second.cell = .ok (c.solve first.bit? second.bit?) := by
  simp [solveBinary, Connective.ofSymbol?, Connective.symbol]

namespace Expr

variable {operand left right : Expr} {c : Connective} {v w x : Valuation}
  {value first second : TruthValue} {bit : Option Bool}

-- To work an application out is to call its operator on the values of its operands.
theorem visit_not (consulted : operand.consult operand.visit v = (.ok value, w))
    (solved : solveUnary negationSymbol value.cell = .ok bit) :
    (not operand).visit v = (.ok (.orText bit (not operand).text),
      (w.enter (not operand).text (.orText bit (not operand).text)).2) := by
  rw [solveUnary_cell] at solved
  cases solved
  simp only [visit, consulted]
  rfl

theorem visit_binary (one : left.consult left.visit v = (.ok first, w))
    (other : right.consult right.visit w = (.ok second, x))
    (solved : solveBinary first.cell c.symbol second.cell = .ok bit) :
    (binary c left right).visit v = (.ok (.orText bit (binary c left right).text),
      (x.enter (binary c left right).text (.orText bit (binary c left right).text)).2) := by
  rw [solveBinary_cell] at solved
  cases solved
  simp only [visit, one, other]
  rfl

end Expr

end TruthTables

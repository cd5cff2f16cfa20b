import TruthTables.Word

namespace TruthTables

def Word.IsName (word : String) : Prop :=
  isReserved word = false ∧ ∃ letters digits : List Char,
    word.toList = letters ++ digits ∧ letters ≠ [] ∧
      (∀ c ∈ letters, c.isAlpha) ∧ ∀ c ∈ digits, c.isDigit

namespace Expr

-- The truth value where each name has the given bit. An unfinished expression has none, and counts
-- as false.
def truth (bits : String → Bool) : Expr → Bool
  | atom name => bits name
  | const value => value != 0
  | not operand => !operand.truth bits
  | binary c left right => c.apply (left.truth bits) (right.truth bits)
  | pair _ _ | hole => false

inductive WellFormed : Expr → Prop where
  | atom {name : String} (named : Word.IsName name) : WellFormed (.atom name)
  | zero : WellFormed (.const 0)
  | one : WellFormed (.const 1)
  | not {operand : Expr} (inner : WellFormed operand) : WellFormed (.not operand)
  | binary {c : Connective} {left right : Expr} (first : WellFormed left)
      (second : WellFormed right) : WellFormed (.binary c left right)

theorem WellFormed.isFinished {e : Expr} (formed : WellFormed e) : e.isFinished := by
  induction formed with
  | atom | zero | one => rfl
  | not _ inner => exact inner
  | binary _ _ first second => simp [Expr.isFinished, first, second]

theorem truth_congr {e : Expr} {bits others : String → Bool}
    (agree : ∀ name ∈ e.names, bits name = others name) : e.truth bits = e.truth others := by
  induction e with
  | atom name => exact agree name (by simp [names])
  | const value => rfl
  | not operand inner =>
    rw [truth, truth, inner agree]
  | binary c left right first second =>
    rw [truth, truth, first, second]
    · intro name member
      exact agree name (List.mem_append_right _ member)
    · intro name member
      exact agree name (List.mem_append_left _ member)
  | pair left right => rfl
  | hole => rfl

end Expr

end TruthTables

namespace TruthTables

inductive Connective where
  | and
  | or
  | implies
  | equiv
  deriving DecidableEq, Repr

namespace Connective

def all : List Connective := [and, or, implies, equiv]

def glyph : Connective → Char
  | and => '•'
  | or => '+'
  | implies => '>'
  | equiv => '~'

def symbol (c : Connective) : String := String.singleton c.glyph

def ofGlyph? : Char → Option Connective
  | '•' => some and
  | '+' => some or
  | '>' => some implies
  | '~' => some equiv
  | _ => none

def apply : Connective → Bool → Bool → Bool
  | and, a, b => a && b
  | or, a, b => a || b
  | implies, a, b => !a || b
  | equiv, a, b => a == b

-- The connective over operands that may be unknown. One unknown operand leaves the whole unknown,
-- also where the other one would decide it.
def solve (c : Connective) (first second : Option Bool) : Option Bool :=
  match first, second with
  | some a, some b => some (c.apply a b)
  | _, _ => none

@[simp] theorem ofGlyph?_glyph (c : Connective) : ofGlyph? c.glyph = some c := by
  cases c <;> rfl

theorem glyph_of_ofGlyph? {char : Char} {c : Connective} (found : ofGlyph? char = some c) :
    c.glyph = char := by
  unfold ofGlyph? at found
  split at found <;> cases found <;> rfl

end Connective

def negationGlyph : Char := '¬'

def negationSymbol : String := String.singleton negationGlyph

end TruthTables

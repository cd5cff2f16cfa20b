import TruthTables.Chain
import TruthTables.Expr.Truth

namespace TruthTables

namespace Expr

-- Nothing to chain leaves a missing operand, which has the empty text.
def chained (c : Connective) : List Expr → Expr
  | [] => hole
  | first :: rest => rest.foldl (binary c) first

variable {c : Connective} {first e : Expr} {rest members : List Expr}

theorem text_foldl (c : Connective) (first : Expr) (rest : List Expr) :
    (rest.map text).foldl (joinTerms c.symbol) first.text = (rest.foldl (binary c) first).text := by
  induction rest generalizing first with
  | nil => rfl
  | cons next rest ih => exact ih (binary c first next)

theorem chain_eq (c : Connective) (members : List Expr) :
    chain c.symbol (members.map text) = (chained c members).text := by
  cases members with
  | nil => rfl
  | cons first rest => exact text_foldl c first rest

@[simp] theorem names_foldl (c : Connective) (first : Expr) (rest : List Expr) :
    (rest.foldl (binary c) first).names = first.names ++ rest.flatMap names := by
  induction rest generalizing first with
  | nil => simp
  | cons next rest ih => simp [ih, names]

@[simp] theorem names_chained (c : Connective) (members : List Expr) :
    (chained c members).names = members.flatMap names := by
  cases members with
  | nil => rfl
  | cons first rest => simp [chained]

theorem wellFormed_foldl (formed : first.WellFormed) (all : ∀ e ∈ rest, e.WellFormed) :
    (rest.foldl (binary c) first).WellFormed := by
  induction rest generalizing first with
  | nil => exact formed
  | cons next rest ih =>
    have whole : (binary c first next).WellFormed := .binary formed (all next (by simp))
    exact ih whole fun e member => all e (List.mem_cons_of_mem _ member)

theorem wellFormed_chained (some : members ≠ []) (all : ∀ e ∈ members, e.WellFormed) :
    (chained c members).WellFormed := by
  cases members with
  | nil => exact absurd rfl some
  | cons first rest =>
    exact wellFormed_foldl (all first (by simp)) fun e member =>
      all e (List.mem_cons_of_mem _ member)

theorem truth_foldl_and (bits : String → Bool) (first : Expr) (rest : List Expr) :
    (rest.foldl (binary .and) first).truth bits = (first :: rest).all (·.truth bits) := by
  induction rest generalizing first with
  | nil => simp
  | cons next rest ih => simp [ih, truth, Connective.apply, Bool.and_assoc]

theorem truth_foldl_or (bits : String → Bool) (first : Expr) (rest : List Expr) :
    (rest.foldl (binary .or) first).truth bits = (first :: rest).any (·.truth bits) := by
  induction rest generalizing first with
  | nil => simp
  | cons next rest ih => simp [ih, truth, Connective.apply, Bool.or_assoc]

theorem truth_chained_and (bits : String → Bool) (some : members ≠ []) :
    (chained .and members).truth bits = members.all (·.truth bits) := by
  cases members with
  | nil => exact absurd rfl some
  | cons first rest => exact truth_foldl_and bits first rest

theorem truth_chained_or (bits : String → Bool) (some : members ≠ []) :
    (chained .or members).truth bits = members.any (·.truth bits) := by
  cases members with
  | nil => exact absurd rfl some
  | cons first rest => exact truth_foldl_or bits first rest

end Expr

end TruthTables

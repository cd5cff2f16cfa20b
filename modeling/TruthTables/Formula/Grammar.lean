import TruthTables.Expr.Truth
import TruthTables.Token.Basic

namespace TruthTables

inductive Derives : List Token → Expr → Prop where
  | name {text : String} (named : Word.IsName text) : Derives [.word text] (.atom text)
  | zero : Derives [.word "0"] (.const 0)
  | one : Derives [.word "1"] (.const 1)
  | bare {tokens : List Token} {operand : Expr} (inner : Derives tokens operand) :
      Derives (.not :: tokens) (.not operand)
  | bracketed {tokens : List Token} {operand : Expr} (inner : Derives tokens operand) :
      Derives (.opening :: .not :: (tokens ++ [.closing])) (.not operand)
  | applied {front back : List Token} {left right : Expr} (c : Connective)
      (first : Derives front left) (second : Derives back right) :
      Derives (.opening :: (front ++ .connective c :: (back ++ [.closing]))) (.binary c left right)

namespace Derives

theorem wellFormed {tokens : List Token} {e : Expr} (derived : Derives tokens e) :
    e.WellFormed := by
  induction derived with
  | name named => exact .atom named
  | zero => exact .zero
  | one => exact .one
  | bare _ inner | bracketed _ inner => exact .not inner
  | applied c _ _ first second => exact .binary first second

theorem ne_nil {tokens : List Token} {e : Expr} (derived : Derives tokens e) : tokens ≠ [] := by
  cases derived <;> simp

theorem exists_of_wellFormed {e : Expr} (formed : e.WellFormed) :
    ∃ tokens, Derives tokens e ∧ String.join (tokens.map Token.text) = e.text := by
  induction formed with
  | @atom name named => exact ⟨[.word name], .name named, by simp [Token.text, Expr.text]⟩
  | zero => exact ⟨[.word "0"], .zero, rfl⟩
  | one => exact ⟨[.word "1"], .one, rfl⟩
  | not _ inner =>
    obtain ⟨tokens, derived, spelled⟩ := inner
    exact ⟨_, .bracketed derived, by simp [Token.text, Expr.text, spelled, String.append_assoc]⟩
  | @binary c left right _ _ first second =>
    obtain ⟨front, derivedFront, spelledFront⟩ := first
    obtain ⟨back, derivedBack, spelledBack⟩ := second
    exact ⟨_, .applied c derivedFront derivedBack, by
      simp [Token.text, Expr.text, spelledFront, spelledBack, String.append_assoc]⟩

end Derives

end TruthTables

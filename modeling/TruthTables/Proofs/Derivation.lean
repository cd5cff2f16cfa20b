import TruthTables.Formula.Grammar
import TruthTables.Proofs.Words

namespace TruthTables

inductive Derivation where
  | leaf (word : String)
  | bare (operand : Derivation)
  | bracketed (operand : Derivation)
  | applied (c : Connective) (left right : Derivation)
  deriving DecidableEq, Repr

namespace Derivation

def tokens : Derivation → List Token
  | leaf word => [.word word]
  | bare operand => .not :: operand.tokens
  | bracketed operand => .opening :: .not :: (operand.tokens ++ [.closing])
  | applied c left right =>
    .opening :: (left.tokens ++ .connective c :: (right.tokens ++ [.closing]))

def expr : Derivation → Expr
  | leaf word => Word.leaf word
  | bare operand | bracketed operand => .not operand.expr
  | applied c left right => .binary c left.expr right.expr

def IsSound : Derivation → Prop
  | leaf word => Word.IsLeaf word
  | bare operand | bracketed operand => operand.IsSound
  | applied _ left right => left.IsSound ∧ right.IsSound

theorem derives {d : Derivation} (sound : d.IsSound) : Derives d.tokens d.expr := by
  induction d with
  | leaf word =>
    rcases sound with named | rfl | rfl
    · rw [expr, Word.leaf_of_isName named]
      exact .name named
    · exact .zero
    · exact .one
  | bare operand ih => exact .bare (ih sound)
  | bracketed operand ih => exact .bracketed (ih sound)
  | applied c left right first second => exact .applied c (first sound.1) (second sound.2)

end Derivation

theorem derives_iff {tokens : List Token} {e : Expr} :
    Derives tokens e ↔ ∃ d : Derivation, d.IsSound ∧ d.tokens = tokens ∧ d.expr = e := by
  constructor
  · intro derived
    induction derived with
    | @name text named => exact ⟨.leaf text, .inl named, rfl, Word.leaf_of_isName named⟩
    | zero => exact ⟨.leaf "0", .inr (.inl rfl), rfl, rfl⟩
    | one => exact ⟨.leaf "1", .inr (.inr rfl), rfl, rfl⟩
    | bare _ ih =>
      obtain ⟨d, sound, rfl, rfl⟩ := ih
      exact ⟨.bare d, sound, rfl, rfl⟩
    | bracketed _ ih =>
      obtain ⟨d, sound, rfl, rfl⟩ := ih
      exact ⟨.bracketed d, sound, rfl, rfl⟩
    | applied c _ _ first second =>
      obtain ⟨left, soundLeft, rfl, rfl⟩ := first
      obtain ⟨right, soundRight, rfl, rfl⟩ := second
      exact ⟨.applied c left right, ⟨soundLeft, soundRight⟩, rfl, rfl⟩
  · intro given
    obtain ⟨d, sound, rfl, rfl⟩ := given
    exact Derivation.derives sound

namespace Derivation

theorem eq_bare_of_not_first {d : Derivation} {rest tail : List Token}
    (same : d.tokens ++ rest = .not :: tail) :
    ∃ operand, d = .bare operand ∧ operand.tokens ++ rest = tail := by
  cases d with
  | leaf word => cases same
  | bare operand => exact ⟨operand, rfl, List.tail_eq_of_cons_eq same⟩
  | bracketed operand => cases same
  | applied c left right => cases same

-- The two spellings of negation share their front with an application whose first operand is a bare
-- negation; only what follows the operand tells them apart.
theorem prefix_free {d other : Derivation} {rest more : List Token}
    (same : d.tokens ++ rest = other.tokens ++ more) : d = other ∧ rest = more := by
  induction d generalizing other rest more with
  | leaf word =>
    cases other with
    | leaf again =>
      obtain ⟨first, tail⟩ := List.cons.inj same
      cases first
      exact ⟨rfl, tail⟩
    | bare operand => cases same
    | bracketed operand => cases same
    | applied c left right => cases same
  | bare operand ih =>
    obtain ⟨again, rfl, inner⟩ := eq_bare_of_not_first same.symm
    obtain ⟨rfl, tail⟩ := ih inner.symm
    exact ⟨rfl, tail⟩
  | bracketed operand ih =>
    cases other with
    | leaf word => cases same
    | bare again => cases same
    | bracketed again =>
      simp only [tokens, List.cons_append, List.append_assoc, List.nil_append, List.cons.injEq,
        true_and] at same
      obtain ⟨rfl, tail⟩ := ih same
      exact ⟨rfl, List.tail_eq_of_cons_eq tail⟩
    | applied c left right =>
      simp only [tokens, List.cons_append, List.append_assoc, List.nil_append, List.cons.injEq,
        true_and] at same
      obtain ⟨again, rfl, inner⟩ := eq_bare_of_not_first same.symm
      cases (ih inner.symm).2
  | applied c left right first second =>
    cases other with
    | leaf word => cases same
    | bare again => cases same
    | bracketed again =>
      simp only [tokens, List.cons_append, List.append_assoc, List.nil_append, List.cons.injEq,
        true_and] at same
      have bare : left.tokens ++ _ = (Derivation.bare again).tokens ++ _ := same
      cases (first bare).2
    | applied c' left' right' =>
      simp only [tokens, List.cons_append, List.append_assoc, List.nil_append, List.cons.injEq,
        true_and] at same
      obtain ⟨rfl, middle⟩ := first same
      obtain ⟨operator, later⟩ := List.cons.inj middle
      cases operator
      obtain ⟨rfl, tail⟩ := second later
      exact ⟨rfl, List.tail_eq_of_cons_eq tail⟩

theorem eq_of_tokens_eq {d other : Derivation} (same : d.tokens = other.tokens) : d = other := by
  have whole : d.tokens ++ [] = other.tokens ++ [] := by rw [same]
  exact (prefix_free whole).1

end Derivation

end TruthTables

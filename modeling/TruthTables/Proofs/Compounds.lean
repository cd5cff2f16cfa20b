import TruthTables.Proofs.Canonicity

namespace TruthTables

def negatedText (text : String) : String := "(" ++ negationSymbol ++ text ++ ")"

section Texts

variable {text other : String} {parsed second : Parsed}

theorem solid_negatedText (text : String) :
    Text.solid (negatedText text).toList =
      '(' :: negationGlyph :: (Text.solid text.toList ++ [')']) := by
  have front : Text.solid ("(" ++ negationSymbol).toList = ['(', negationGlyph] := by decide
  have back : Text.solid ")".toList = [')'] := by decide
  rw [negatedText, String.toList_append, String.toList_append, Text.solid_append,
    Text.solid_append, front, back]
  rfl

theorem solid_joinTerms (c : Connective) (text other : String) :
    Text.solid (joinTerms c.symbol text other).toList =
      '(' :: (Text.solid text.toList ++ c.glyph :: (Text.solid other.toList ++ [')'])) := by
  have front : Text.solid "(".toList = ['('] := by decide
  have sign : Text.solid c.symbol.toList = [c.glyph] := by cases c <;> decide
  have back : Text.solid ")".toList = [')'] := by decide
  simp only [joinTerms, String.toList_append, Text.solid_append, front, sign, back]
  simp

theorem parse_negatedText (accepted : parse text = .ok parsed) :
    parse (negatedText text) = .ok ⟨.not parsed.root, parsed.names⟩ := by
  obtain ⟨d, sound, cut, named, rfl⟩ := parse_eq_ok_iff.mp accepted
  refine parse_eq_ok_iff.mpr ⟨.bracketed d, sound, ?_, named, rfl⟩
  have spelled : Text.solid (negatedText text).toList =
      (Derivation.bracketed d).tokens.flatMap (·.text.toList) := by
    rw [solid_negatedText, ← cut.spelled]
    simp [Derivation.tokens, Token.text, negationSymbol]
  rw [spelled]
  exact Derivation.cut (d := .bracketed d) sound

theorem parse_joinTerms (c : Connective) (accepted : parse text = .ok parsed)
    (otherAccepted : parse other = .ok second) :
    parse (joinTerms c.symbol text other) =
      .ok ⟨.binary c parsed.root second.root,
        (parsed.root.names ++ second.root.names).eraseDups⟩ := by
  obtain ⟨left, sound, cut, named, rfl⟩ := parse_eq_ok_iff.mp accepted
  obtain ⟨right, soundRight, cutRight, _, rfl⟩ := parse_eq_ok_iff.mp otherAccepted
  refine parse_eq_ok_iff.mpr ⟨.applied c left right, ⟨sound, soundRight⟩, ?_, ?_, rfl⟩
  · have spelled : Text.solid (joinTerms c.symbol text other).toList =
        (Derivation.applied c left right).tokens.flatMap (·.text.toList) := by
      rw [solid_joinTerms, ← cut.spelled, ← cutRight.spelled]
      simp [Derivation.tokens, Token.text, Connective.symbol]
    rw [spelled]
    exact Derivation.cut (d := .applied c left right) ⟨sound, soundRight⟩
  · simp [Derivation.expr, Expr.names, named]

end Texts

namespace Expr

variable {e left right : Expr} {name : String}

@[simp] theorem sorted_not (e : Expr) : (not e).sorted = e.sorted := rfl

theorem results_not (e : Expr) : (not e).results = e.results.map Bool.not := by
  rw [results, results, column, column, List.map_map]
  rfl

variable (same : ∀ name, name ∈ left.names ↔ name ∈ right.names) (c : Connective)
include same

theorem sorted_binary : (binary c left right).sorted = left.sorted := by
  apply sorted_congr
  intro name
  rw [names, List.mem_append, ← same, or_self]

theorem results_binary :
    (binary c left right).results = List.zipWith c.apply left.results right.results := by
  rw [results, results, results, sorted_binary same, ← sorted_congr same, column, column, column,
    List.zipWith_map, List.zipWith_self]
  rfl

end Expr

end TruthTables

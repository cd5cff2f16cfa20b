import TruthTables.Proofs.Cutting
import TruthTables.Proofs.Reading

namespace TruthTables

namespace Token

def name? : Token → Option String
  | word text => if text = "0" ∨ text = "1" then none else some text
  | _ => none

def names (tokens : List Token) : List String := tokens.filterMap name?

end Token

theorem Word.names_leaf (word : String) :
    (Word.leaf word).names = (Token.name? (.word word)).toList := by
  unfold Word.leaf Token.name?
  by_cases zero : word = "0"
  · simp [zero, Expr.names]
  · by_cases one : word = "1"
    · simp [one, Expr.names]
    · simp [zero, one, Expr.names]

theorem Derivation.names_tokens (d : Derivation) :
    Token.names d.tokens = d.expr.names := by
  induction d with
  | leaf word =>
    rw [Derivation.expr, Word.names_leaf]
    cases named : Token.name? (.word word) <;>
      simp [Derivation.tokens, Token.names, named]
  | bare operand ih =>
    rw [Derivation.expr, Expr.names, ← ih]
    rfl
  | bracketed operand ih =>
    rw [Derivation.expr, Expr.names, ← ih]
    simp [Derivation.tokens, Token.names, Token.name?, List.filterMap_cons]
  | applied c left right first second =>
    rw [Derivation.expr, Expr.names, ← first, ← second]
    simp [Derivation.tokens, Token.names, Token.name?, List.filterMap_cons]

namespace Parser

theorem parseTokens_eq (tokens : List Token) :
    parseTokens tokens =
      match front [] tokens with
      | .error error => .error error
      | .ok none =>
        match tokens with
        | [] => .error .noVariable
        | next :: _ => .error (.unexpected next none)
      | .ok (some p) =>
        match p.rest with
        | next :: _ => .error (.unexpected next (some p.expr))
        | [] => if p.names.isEmpty then .error .noVariable else .ok ⟨p.expr, p.names⟩ := by
  unfold parseTokens front
  rcases formula [] tokens with error | _ | ⟨expr, names, rest, shorter⟩
  · rfl
  · cases tokens <;> rfl
  · cases rest <;> rfl

theorem parseTokens_eq_ok_iff {tokens : List Token} {parsed : Parsed} :
    parseTokens tokens = .ok parsed ↔
      ∃ d : Derivation, d.IsSound ∧ d.tokens = tokens ∧ d.expr.names ≠ [] ∧
        parsed = ⟨d.expr, d.expr.names.eraseDups⟩ := by
  rw [parseTokens_eq]
  constructor
  · intro found
    rcases read : front [] tokens with error | _ | p
    · simp [read] at found
    · cases tokens <;> simp [read] at found
    · obtain ⟨d, sound, split, same, noted⟩ := front_eq_some_iff.mp read
      rw [enlistAll_eq_eraseDups] at noted
      simp only [read] at found
      split at found
      · cases found
      · rename_i ended
        split at found
        · cases found
        · rename_i named
          cases found
          rw [ended, List.append_nil] at split
          refine ⟨d, sound, split.symm, ?_, by rw [same, noted]⟩
          intro none
          simp [noted, none] at named
  · intro given
    obtain ⟨d, sound, rfl, named, rfl⟩ := given
    have read := front_of_derivation sound [] []
    rw [List.append_nil, enlistAll_eq_eraseDups] at read
    obtain ⟨name, member⟩ := List.exists_mem_of_ne_nil _ named
    have some : d.expr.names.eraseDups ≠ [] :=
      List.ne_nil_of_mem (List.mem_eraseDups.mpr member)
    simp [read, some]

end Parser

theorem parse_of_cut {text : String} {tokens : List Token}
    (cut : Cut (Text.solid text.toList) tokens) : parse text = Parser.parseTokens tokens := by
  obtain ⟨lexemes, found, rfl⟩ := Lexer.tokenize_iff_cut.mpr cut
  simp only [parse, found]

theorem parse_eq_ok_iff_parseTokens {text : String} {parsed : Parsed} :
    parse text = .ok parsed ↔
      ∃ tokens, Cut (Text.solid text.toList) tokens ∧ Parser.parseTokens tokens = .ok parsed := by
  constructor
  · intro accepted
    unfold parse at accepted
    split at accepted
    · cases accepted
    · rename_i lexemes found
      exact ⟨_, Lexer.tokenize_iff_cut.mp ⟨lexemes, found, rfl⟩, accepted⟩
  · intro given
    obtain ⟨tokens, cut, accepted⟩ := given
    exact (parse_of_cut cut).trans accepted

theorem parse_eq_ok_iff {text : String} {parsed : Parsed} :
    parse text = .ok parsed ↔
      ∃ d : Derivation, d.IsSound ∧ Cut (Text.solid text.toList) d.tokens ∧ d.expr.names ≠ [] ∧
        parsed = ⟨d.expr, d.expr.names.eraseDups⟩ := by
  rw [parse_eq_ok_iff_parseTokens]
  constructor
  · intro given
    obtain ⟨tokens, cut, accepted⟩ := given
    obtain ⟨d, sound, rfl, named, rfl⟩ := Parser.parseTokens_eq_ok_iff.mp accepted
    exact ⟨d, sound, cut, named, rfl⟩
  · intro given
    obtain ⟨d, sound, cut, named, rfl⟩ := given
    exact ⟨d.tokens, cut, Parser.parseTokens_eq_ok_iff.mpr ⟨d, sound, rfl, named, rfl⟩⟩

theorem parse_wellFormed {text : String} {parsed : Parsed} (accepted : parse text = .ok parsed) :
    parsed.root.WellFormed := by
  obtain ⟨d, sound, _, _, rfl⟩ := parse_eq_ok_iff.mp accepted
  exact (Derivation.derives sound).wellFormed

-- The grammar, the alphabet and the need for a variable decide; nothing else does.
theorem accepts_exactly_the_grammar (text : String) :
    ((∃ parsed, parse text = .ok parsed) ↔
      (∀ c ∈ Text.solid text.toList, Token.InAlphabet c) ∧
        ∃ tokens, Cut (Text.solid text.toList) tokens ∧ (∃ e, Derives tokens e) ∧
          Token.names tokens ≠ []) ∧
    (∀ parsed, parse text = .ok parsed →
      ∃ d : Derivation, (d.IsSound ∧ Cut (Text.solid text.toList) d.tokens) ∧
        (∀ other : Derivation, other.IsSound ∧ Cut (Text.solid text.toList) other.tokens →
          other = d) ∧
        (∃ lexemes, Lexer.tokenize text = .ok lexemes ∧ lexemes.map (·.token) = d.tokens) ∧
        parsed.root = d.expr ∧ Derives d.tokens parsed.root ∧
        parsed.names = (Token.names d.tokens).eraseDups) ∧
    ((¬∃ parsed, parse text = .ok parsed) → ∃ error, parse text = .error error) := by
  refine ⟨⟨?_, ?_⟩, ?_, ?_⟩
  · intro given
    obtain ⟨parsed, accepted⟩ := given
    obtain ⟨d, sound, cut, named, rfl⟩ := parse_eq_ok_iff.mp accepted
    refine ⟨cut.inAlphabet, d.tokens, cut, ⟨d.expr, Derivation.derives sound⟩, ?_⟩
    rwa [Derivation.names_tokens]
  · intro given
    obtain ⟨_, tokens, cut, ⟨e, derived⟩, named⟩ := given
    obtain ⟨d, sound, rfl, rfl⟩ := derives_iff.mp derived
    rw [Derivation.names_tokens] at named
    exact ⟨_, parse_eq_ok_iff.mpr ⟨d, sound, cut, named, rfl⟩⟩
  · intro parsed accepted
    obtain ⟨d, sound, cut, _, rfl⟩ := parse_eq_ok_iff.mp accepted
    refine ⟨d, ⟨sound, cut⟩, ?_, Lexer.tokenize_iff_cut.mpr cut, rfl, Derivation.derives sound, ?_⟩
    · rintro other ⟨_, cutOther⟩
      exact Derivation.eq_of_tokens_eq (cutOther.unique cut)
    · rw [Derivation.names_tokens]
  · intro rejected
    cases outcome : parse text with
    | error error => exact ⟨error, rfl⟩
    | ok parsed => exact absurd ⟨parsed, outcome⟩ rejected

theorem accepts_bare_negations :
    parse "(x 1•¬¬y)" =
        .ok ⟨.binary .and (.atom "x1") (.not (.not (.atom "y"))), ["x1", "y"]⟩ ∧
      ∃ d : Derivation, (d.IsSound ∧ Cut (Text.solid "(x 1•¬¬y)".toList) d.tokens) ∧
        (∀ other : Derivation, other.IsSound ∧ Cut (Text.solid "(x 1•¬¬y)".toList) other.tokens →
          other = d) ∧
        (∃ lexemes, Lexer.tokenize "(x 1•¬¬y)" = .ok lexemes ∧
          lexemes.map (·.token) = d.tokens) ∧
        .binary .and (.atom "x1") (.not (.not (.atom "y"))) = d.expr ∧
        Derives d.tokens (.binary .and (.atom "x1") (.not (.not (.atom "y")))) ∧
        ["x1", "y"] = (Token.names d.tokens).eraseDups :=
  have accepted : parse "(x 1•¬¬y)" =
      .ok ⟨.binary .and (.atom "x1") (.not (.not (.atom "y"))), ["x1", "y"]⟩ := by cbv
  ⟨accepted, (accepts_exactly_the_grammar "(x 1•¬¬y)").2.1 _ accepted⟩

end TruthTables

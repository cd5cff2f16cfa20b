import TruthTables.Formula.Error

namespace TruthTables

structure Reading (tokens : List Token) where
  expr : Expr
  names : List String
  rest : List Token
  shorter : rest.length < tokens.length

structure Parsed where
  root : Expr
  names : List String
  deriving DecidableEq, Repr

namespace Parser

def noteName (names : List String) : Expr → List String
  | .atom name => if names.contains name then names else names ++ [name]
  | _ => names

mutual

def formula (names : List String) (tokens : List Token) :
    Except FormulaError (Option (Reading tokens)) :=
  match tokens with
  | .word text :: rest =>
    match Word.read text with
    | .error error => .error (.word error)
    | .ok leaf => .ok (some ⟨leaf, noteName names leaf, rest, by simp⟩)
  | .not :: rest =>
    match formula names rest with
    | .error error => .error error
    | .ok none => .error .nothingNegated
    | .ok (some negated) =>
      .ok (some ⟨.not negated.expr, negated.names, negated.rest, by
        have := negated.shorter; simp only [List.length_cons]; omega⟩)
  | .opening :: .not :: rest =>
    match formula names rest with
    | .error error => .error error
    | .ok none => .error .nothingNegated
    | .ok (some negated) =>
      match left : negated.rest with
      | [] => .error (.unclosed (.negation negated.expr))
      | .closing :: after =>
        .ok (some ⟨.not negated.expr, negated.names, after, by
          have := negated.shorter; simp only [left, List.length_cons] at this ⊢; omega⟩)
      | next :: after =>
        match application negated.names (.not negated.expr) (next :: after) with
        | .error error => .error error
        | .ok whole =>
          .ok (some ⟨whole.expr, whole.names, whole.rest, by
            have := negated.shorter
            have := whole.shorter
            simp only [left, List.length_cons] at *; omega⟩)
  | .opening :: rest =>
    match formula names rest with
    | .error error => .error error
    | .ok none => .error (.nothingOpened rest.head?)
    | .ok (some first) =>
      match application first.names first.expr first.rest with
      | .error error => .error error
      | .ok whole =>
        .ok (some ⟨whole.expr, whole.names, whole.rest, by
          have := first.shorter
          have := whole.shorter
          simp only [List.length_cons]; omega⟩)
  | .connective _ :: _ => .ok none
  | .closing :: _ => .ok none
  | [] => .ok none
termination_by tokens.length
decreasing_by
  · simp
  · simp only [List.length_cons]; omega
  · have := negated.shorter
    simp only [left, List.length_cons] at *; omega
  · simp
  · have := first.shorter
    simp only [List.length_cons]; omega

def application (names : List String) (first : Expr) (tokens : List Token) :
    Except FormulaError (Reading tokens) :=
  match tokens with
  | .connective c :: rest =>
    match formula names rest with
    | .error error => .error error
    | .ok none => .error (.noOperand first c rest.head?)
    | .ok (some second) =>
      match left : second.rest with
      | .closing :: after =>
        .ok ⟨.binary c first second.expr, second.names, after, by
          have := second.shorter; simp only [left, List.length_cons] at this ⊢; omega⟩
      | _ => .error (.unclosed (.application first c second.expr))
  | tokens => .error (.noOperator first tokens.head?)
termination_by tokens.length
decreasing_by simp

end

def parseTokens (tokens : List Token) : Except FormulaError Parsed :=
  match formula [] tokens with
  | .error error => .error error
  | .ok none =>
    match tokens with
    | [] => .error .noVariable
    | next :: _ => .error (.unexpected next none)
  | .ok (some read) =>
    match read.rest with
    | next :: _ => .error (.unexpected next (some read.expr))
    | [] => if read.names.isEmpty then .error .noVariable else .ok ⟨read.expr, read.names⟩

end Parser

-- Reads a text that has to be one formula. All of it is split into tokens first, so an illegal
-- character anywhere comes before any other fault.
def parse (text : String) : Except FormulaError Parsed :=
  match Lexer.tokenize text with
  | .error illegal => .error (.illegal illegal.char illegal.position)
  | .ok lexemes => Parser.parseTokens (lexemes.map (·.token))

end TruthTables

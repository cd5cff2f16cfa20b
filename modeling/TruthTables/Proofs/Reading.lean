import TruthTables.Formula.Parser
import TruthTables.Proofs.Derivation
import TruthTables.Proofs.Distinct

namespace TruthTables

namespace Parser

-- A formula that was read and what was left, without the proof that something was consumed.
structure Piece where
  expr : Expr
  names : List String
  rest : List Token
  deriving DecidableEq, Repr

def pieceOf {tokens : List Token} (r : Reading tokens) : Piece := ⟨r.expr, r.names, r.rest⟩

def front (names : List String) (tokens : List Token) : Except FormulaError (Option Piece) :=
  (formula names tokens).map (Option.map pieceOf)

def back (names : List String) (first : Expr) (tokens : List Token) : Except FormulaError Piece :=
  (application names first tokens).map pieceOf

variable {names : List String} {first : Expr} {rest : List Token}

@[simp] theorem front_nil : front names [] = .ok none := by
  rw [front, formula]
  rfl

@[simp] theorem front_connective {c : Connective} :
    front names (.connective c :: rest) = .ok none := by
  rw [front, formula]
  rfl

@[simp] theorem front_closing : front names (.closing :: rest) = .ok none := by
  rw [front, formula]
  rfl

@[simp] theorem front_word {text : String} :
    front names (.word text :: rest) =
      match Word.read text with
      | .error error => .error (.word error)
      | .ok leaf => .ok (some ⟨leaf, noteName names leaf, rest⟩) := by
  rw [front, formula]
  cases Word.read text <;> rfl

@[simp] theorem front_not :
    front names (.not :: rest) =
      match front names rest with
      | .error error => .error error
      | .ok none => .error .nothingNegated
      | .ok (some p) => .ok (some ⟨.not p.expr, p.names, p.rest⟩) := by
  rw [front, formula, front]
  rcases formula names rest with error | _ | read <;> rfl

@[simp] theorem front_opening_not :
    front names (.opening :: .not :: rest) =
      match front names rest with
      | .error error => .error error
      | .ok none => .error .nothingNegated
      | .ok (some p) =>
        match p.rest with
        | [] => .error (.unclosed (.negation p.expr))
        | .closing :: after => .ok (some ⟨.not p.expr, p.names, after⟩)
        | next :: after => (back p.names (.not p.expr) (next :: after)).map some := by
  rw [front, formula, front]
  rcases formula names rest with error | _ | ⟨expr, known, left, shorter⟩
  · rfl
  · rfl
  · cases left with
    | nil => rfl
    | cons next after =>
      cases next with
      | closing => rfl
      | not | connective | opening | word =>
        simp only [Except.map, Option.map, pieceOf, back]
        cases application known (.not expr) (_ :: after) <;> rfl

theorem front_opening (other : rest.head? ≠ some .not) :
    front names (.opening :: rest) =
      match front names rest with
      | .error error => .error error
      | .ok none => .error (.nothingOpened rest.head?)
      | .ok (some p) => (back p.names p.expr p.rest).map some := by
  rw [front, formula, front]
  · rcases formula names rest with error | _ | ⟨expr, known, left, shorter⟩
    · rfl
    · rfl
    · simp only [Except.map, Option.map, pieceOf, back]
      cases application known expr left <;> rfl
  · rintro tail rfl
    exact other rfl

@[simp] theorem back_connective {c : Connective} :
    back names first (.connective c :: rest) =
      match front names rest with
      | .error error => .error error
      | .ok none => .error (.noOperand first c rest.head?)
      | .ok (some p) =>
        match p.rest with
        | .closing :: after => .ok ⟨.binary c first p.expr, p.names, after⟩
        | _ => .error (.unclosed (.application first c p.expr)) := by
  rw [back, application, front]
  rcases formula names rest with error | _ | ⟨expr, known, left, shorter⟩
  · rfl
  · rfl
  · cases left with
    | nil => rfl
    | cons next after => cases next <;> rfl

theorem back_other {tokens : List Token} (other : ∀ c rest, tokens ≠ .connective c :: rest) :
    back names first tokens = .error (.noOperator first tokens.head?) := by
  rw [back, application]
  · rfl
  · intro c tail same
    exact other c tail same

theorem noteName_leaf (names : List String) (word : String) :
    noteName names (Word.leaf word) = enlistAll names (Word.leaf word).names := by
  unfold Word.leaf
  split
  · rfl
  · split
    · rfl
    · simp [noteName, Expr.names, enlistAll, enlist]

theorem eq_not_cons_of_head? {tokens : List Token} (head : tokens.head? = some .not) :
    ∃ more, tokens = .not :: more := by
  cases tokens with
  | nil => cases head
  | cons t more => exact ⟨more, by rw [Option.some.inj head]⟩

-- A negation in front of the operand is read on its own first, which makes no difference where an
-- operator follows the whole operand.
theorem front_opening_of_front {tokens after : List Token} {c : Connective} {p : Piece}
    (found : front names tokens = .ok (some p)) (next : p.rest = .connective c :: after) :
    front names (.opening :: tokens) = (back p.names p.expr (.connective c :: after)).map some := by
  by_cases head : tokens.head? = some .not
  · obtain ⟨more, rfl⟩ := eq_not_cons_of_head? head
    rw [front_not] at found
    rw [front_opening_not]
    rcases inner : front names more with error | _ | q
    · simp [inner] at found
    · simp [inner] at found
    · simp only [inner, Except.ok.injEq, Option.some.injEq] at found
      subst found
      have left : q.rest = .connective c :: after := next
      simp only [left]
  · rw [front_opening head, found]
    simp only [next]

theorem front_of_derivation {d : Derivation} (sound : d.IsSound) (names : List String)
    (rest : List Token) :
    front names (d.tokens ++ rest) =
      .ok (some ⟨d.expr, enlistAll names d.expr.names, rest⟩) := by
  induction d generalizing names rest with
  | leaf word =>
    simp [Derivation.tokens, Derivation.expr, Word.read_of_isLeaf sound, noteName_leaf]
  | bare operand ih =>
    simp [Derivation.tokens, Derivation.expr, Expr.names, ih sound]
  | bracketed operand ih =>
    have whole := ih sound names (.closing :: rest)
    simp [Derivation.tokens, Derivation.expr, Expr.names, whole]
  | applied c left right first second =>
    have operand := first sound.1 names (.connective c :: (right.tokens ++ .closing :: rest))
    have other := second sound.2 (enlistAll names left.expr.names) (.closing :: rest)
    have regrouped : (Derivation.applied c left right).tokens ++ rest =
        .opening :: (left.tokens ++ .connective c :: (right.tokens ++ .closing :: rest)) := by
      simp [Derivation.tokens]
    rw [regrouped, front_opening_of_front operand rfl]
    simp [Derivation.expr, Expr.names, other, enlistAll_append, Except.map]

structure Piece.Spells (names : List String) (tokens : List Token) (p : Piece) (d : Derivation) :
    Prop where
  sound : d.IsSound
  split : tokens = d.tokens ++ p.rest
  same : p.expr = d.expr
  noted : p.names = enlistAll names d.expr.names

def ReadsDerivation (tokens : List Token) : Prop :=
  ∀ names p, front names tokens = .ok (some p) → ∃ d, p.Spells names tokens d

theorem Piece.Spells.bare {tokens : List Token} {q : Piece} {d : Derivation}
    (piece : q.Spells names tokens d) :
    Piece.Spells names (.not :: tokens) ⟨.not q.expr, q.names, q.rest⟩ (.bare d) where
  sound := piece.sound
  split := by rw [piece.split]; rfl
  same := by rw [piece.same]; rfl
  noted := piece.noted

theorem Piece.Spells.bracketed {tokens after : List Token} {q : Piece} {d : Derivation}
    (piece : q.Spells names tokens d) (closed : q.rest = .closing :: after) :
    Piece.Spells names (.opening :: .not :: tokens) ⟨.not q.expr, q.names, after⟩
      (.bracketed d) where
  sound := piece.sound
  split := by simp [piece.split, closed, Derivation.tokens]
  same := by rw [piece.same]; rfl
  noted := piece.noted

theorem back_readsDerivation {tokens : List Token} {p : Piece}
    (shorter : ∀ less : List Token, less.length < tokens.length → ReadsDerivation less)
    (found : back names first tokens = .ok p) :
    ∃ (c : Connective) (d : Derivation), d.IsSound ∧
      tokens = .connective c :: (d.tokens ++ .closing :: p.rest) ∧
      p.expr = .binary c first d.expr ∧ p.names = enlistAll names d.expr.names := by
  by_cases other : ∀ c rest, tokens ≠ .connective c :: rest
  · rw [back_other other] at found
    cases found
  · simp only [ne_eq, not_forall, Decidable.not_not] at other
    obtain ⟨c, rest, rfl⟩ := other
    rw [back_connective] at found
    rcases inner : front names rest with error | _ | q
    · simp [inner] at found
    · simp [inner] at found
    · obtain ⟨d, sound, split, same, noted⟩ := shorter rest (by simp) names q inner
      simp only [inner] at found
      split at found
      · rename_i after closed
        cases found
        rw [closed] at split
        exact ⟨c, d, sound, by rw [split], by rw [same], noted⟩
      · cases found

theorem Piece.Spells.applied {tokens : List Token} {q p : Piece} {d : Derivation}
    (piece : q.Spells names tokens d)
    (shorter : ∀ less : List Token, less.length < q.rest.length → ReadsDerivation less)
    (found : back q.names q.expr q.rest = .ok p) :
    ∃ whole, p.Spells names (.opening :: tokens) whole := by
  obtain ⟨c, other, sound, split, expr, noted⟩ := back_readsDerivation shorter found
  refine ⟨.applied c d other, ⟨piece.sound, sound⟩, ?_, ?_, ?_⟩
  · simp [piece.split, split, Derivation.tokens]
  · rw [expr, piece.same]
    rfl
  · rw [noted, piece.noted, ← enlistAll_append]
    rfl

theorem of_map_some {r : Except FormulaError Piece} {p : Piece}
    (found : r.map some = .ok (some p)) : r = .ok p := by
  cases r with
  | error error => cases found
  | ok q =>
    cases found
    rfl

theorem opening_readsDerivation
    (shorter : ∀ less : List Token, less.length ≤ rest.length → ReadsDerivation less) :
    ReadsDerivation (.opening :: rest) := by
  intro names p found
  by_cases head : rest.head? = some .not
  · obtain ⟨more, rfl⟩ := eq_not_cons_of_head? head
    rw [front_opening_not] at found
    rcases inner : front names more with error | _ | q
    · simp [inner] at found
    · simp [inner] at found
    · obtain ⟨d, piece⟩ := shorter more (by simp) names q inner
      have small : q.rest.length ≤ more.length := by simp [piece.split]
      simp only [inner] at found
      split at found
      · cases found
      · rename_i after closed
        cases found
        exact ⟨_, piece.bracketed closed⟩
      · rename_i next after _ left
        refine piece.bare.applied (fun less smaller => shorter less ?_) ?_
        · exact Nat.le_succ_of_le (Nat.le_trans (Nat.le_of_lt smaller) small)
        · rw [← of_map_some found, ← left]
  · rw [front_opening head] at found
    rcases inner : front names rest with error | _ | q
    · simp [inner] at found
    · simp [inner] at found
    · obtain ⟨d, piece⟩ := shorter rest (Nat.le_refl _) names q inner
      have small : q.rest.length ≤ rest.length := by simp [piece.split]
      simp only [inner] at found
      exact piece.applied (fun less smaller => shorter less (by omega)) (of_map_some found)

theorem readsDerivation (tokens : List Token) : ReadsDerivation tokens := by
  induction size : tokens.length using Nat.strongRecOn generalizing tokens with
  | ind n ih =>
    have shorter : ∀ less : List Token, less.length < tokens.length → ReadsDerivation less :=
      fun less smaller => ih less.length (size ▸ smaller) less rfl
    intro names p found
    cases tokens with
    | nil => simp at found
    | cons t rest =>
      cases t with
      | connective c => simp at found
      | closing => simp at found
      | word text =>
        rw [front_word] at found
        cases known : Word.read text with
        | error error => simp [known] at found
        | ok leaf =>
          obtain ⟨sound, rfl⟩ := Word.read_eq_ok_iff.mp known
          simp only [known, Except.ok.injEq, Option.some.injEq] at found
          subst found
          exact ⟨.leaf text, sound, rfl, rfl, noteName_leaf names text⟩
      | not =>
        rw [front_not] at found
        rcases inner : front names rest with error | _ | q
        · simp [inner] at found
        · simp [inner] at found
        · obtain ⟨d, piece⟩ := shorter rest (by simp) names q inner
          simp only [inner, Except.ok.injEq, Option.some.injEq] at found
          subst found
          exact ⟨_, piece.bare⟩
      | opening =>
        exact opening_readsDerivation (fun less small => shorter less (Nat.lt_succ_of_le small))
          names p found

theorem front_eq_some_iff {tokens : List Token} {p : Piece} :
    front names tokens = .ok (some p) ↔ ∃ d, p.Spells names tokens d := by
  constructor
  · exact readsDerivation tokens names p
  · intro given
    obtain ⟨d, sound, rfl, same, noted⟩ := given
    rw [front_of_derivation sound, ← noted, ← same]

end Parser

end TruthTables

import TruthTables.Proofs.Locality
import TruthTables.Proofs.Viability

namespace TruthTables

inductive Pending : List Token → Prop where
  | nothing : Pending []
  | negation {before : List Token} (inner : Pending before) : Pending (.not :: before)
  | bracket {before : List Token} (inner : Pending before) : Pending (.opening :: before)
  | operand {before : List Token} {d : Derivation} (sound : d.IsSound) (c : Connective)
      (inner : Pending before) : Pending (.opening :: (d.tokens ++ .connective c :: before))

def Absent (next : Option Token) : Prop := ∀ t ∈ next, t.begins = false

-- What follows an opening bracket is a first operand. A bare negation may be all that the bracket
-- holds, and is told by the next token.
def Derivation.IsFirst (d : Derivation) (next : Option Token) : Prop :=
  ∀ operand, d = .bare operand → ∃ t, next = some t ∧ t ≠ .closing

-- A run that begins where an operand has to, and the error if the next token follows it.
inductive Stuck : List Token → Option Token → FormulaError → Prop where
  | word {text : String} {error : WordError} (wrong : Word.read text = .error error) :
      Stuck [] (some (.word text)) (.word error)
  | negated {next : Option Token} (absent : Absent next) : Stuck [.not] next .nothingNegated
  | opened {next : Option Token} (absent : Absent next) :
      Stuck [.opening] next (.nothingOpened next)
  | operator {d : Derivation} {next : Option Token} (sound : d.IsSound) (first : d.IsFirst next)
      (other : ∀ c, next ≠ some (.connective c)) :
      Stuck (.opening :: d.tokens) next (.noOperator d.expr next)
  | operand {d : Derivation} {next : Option Token} (sound : d.IsSound) (c : Connective)
      (absent : Absent next) :
      Stuck (.opening :: (d.tokens ++ [.connective c])) next (.noOperand d.expr c next)
  | negation {d : Derivation} (sound : d.IsSound) :
      Stuck (.opening :: .not :: d.tokens) none (.unclosed (.negation d.expr))
  | application {d second : Derivation} {next : Option Token} (sound : d.IsSound) (c : Connective)
      (soundSecond : second.IsSound) (other : next ≠ some .closing) :
      Stuck (.opening :: (d.tokens ++ .connective c :: second.tokens)) next
        (.unclosed (.application d.expr c second.expr))

inductive Rejected : List Token → FormulaError → Prop where
  | empty : Rejected [] .noVariable
  | constant {d : Derivation} (sound : d.IsSound) (nameless : d.expr.names = []) :
      Rejected d.tokens .noVariable
  | misplaced {next : Token} (absent : next.begins = false) (rest : List Token) :
      Rejected (next :: rest) (.unexpected next none)
  | leftover {d : Derivation} (sound : d.IsSound) (next : Token) (rest : List Token) :
      Rejected (d.tokens ++ next :: rest) (.unexpected next (some d.expr))
  | inside {before run rest : List Token} {error : FormulaError} (pending : Pending before)
      (stuck : Stuck run rest.head? error) : Rejected (before ++ (run ++ rest)) error

section Beginnings

variable {before run rest : List Token} {next : Option Token} {error : FormulaError}

theorem Pending.viable (pending : Pending before) (viable : Viable rest) :
    Viable (before ++ rest) := by
  induction pending with
  | nothing => exact viable
  | negation _ ih => exact ih.bare
  | bracket _ ih => exact ih.opened
  | operand sound c _ ih =>
    have whole := ih.second sound c
    simpa using whole

theorem Stuck.viable (stuck : Stuck run next error) : Viable run := by
  cases stuck with
  | word => exact .nil
  | negated => exact Viable.nil.bare
  | opened => exact Viable.nil.opened
  | operator sound => exact (Derivation.viable sound).opened
  | operand sound c => exact Viable.nil.second sound c
  | negation sound => exact (Derivation.viable sound).bare.opened
  | application sound c soundSecond => exact (Derivation.viable soundSecond).second sound c

end Beginnings

namespace Parser

variable {names : List String} {d : Derivation} {before run rest tokens : List Token}
  {error : FormulaError}

theorem front_bracket (sound : d.IsSound) (first : d.IsFirst rest.head?) (names : List String) :
    front names (.opening :: (d.tokens ++ rest)) =
      (back (enlistAll names d.expr.names) d.expr rest).map some := by
  cases rest with
  | cons t more =>
    refine front_opening_of_derivation sound (fun closed operand bare => ?_) more
    obtain ⟨_, same, other⟩ := first operand bare
    exact other (Option.some.inj same ▸ closed)
  | nil =>
    cases d with
    | bare operand =>
      obtain ⟨_, missing, _⟩ := first operand rfl
      cases missing
    | leaf | bracketed | applied =>
      rw [front_opening (by simp [Derivation.tokens]), front_of_derivation sound]

theorem isFirst_connective (d : Derivation) (c : Connective) (rest : List Token) :
    d.IsFirst (Token.connective c :: rest).head? :=
  fun _ _ => ⟨.connective c, rfl, nofun⟩

end Parser

theorem Stuck.front {run rest : List Token} {error : FormulaError}
    (stuck : Stuck run rest.head? error) (names : List String) :
    Parser.front names (run ++ rest) = .error error := by
  generalize head : rest.head? = next at stuck
  cases stuck with
  | word wrong =>
    obtain ⟨more, rfl⟩ := List.head?_eq_some_iff.mp head
    simp [wrong]
  | negated absent =>
    simp [Parser.front_eq_none_iff.mpr (head ▸ absent)]
  | opened absent =>
    subst head
    have other : rest.head? ≠ some .not := fun same => nomatch absent .not same
    simp [Parser.front_opening other, Parser.front_eq_none_iff.mpr absent]
  | operator sound first other =>
    subst head
    rw [List.cons_append, Parser.front_bracket sound first, Parser.back_other]
    · rfl
    · rintro c more rfl
      exact other c rfl
  | @operand d _ sound c absent =>
    subst head
    have split : Token.opening :: (d.tokens ++ [.connective c]) ++ rest =
        .opening :: (d.tokens ++ .connective c :: rest) := by simp
    rw [split, Parser.front_bracket sound (Parser.isFirst_connective d c rest)]
    simp [Parser.front_eq_none_iff.mpr absent, Except.map]
  | @negation d sound =>
    have ended := List.head?_eq_none_iff.mp head
    subst ended
    have inner := Parser.front_of_derivation sound names []
    rw [List.append_nil] at inner ⊢
    simp [inner]
  | @application d second _ sound c soundSecond other =>
    subst head
    have split : Token.opening :: (d.tokens ++ .connective c :: second.tokens) ++ rest =
        .opening :: (d.tokens ++ .connective c :: (second.tokens ++ rest)) := by simp
    rw [split, Parser.front_bracket sound (Parser.isFirst_connective d c _),
      Parser.back_connective, Parser.front_of_derivation soundSecond]
    cases rest with
    | nil => rfl
    | cons t more =>
      cases t with
      | closing => exact absurd rfl other
      | not | connective | opening | word => rfl

theorem Pending.front {before rest : List Token} {error : FormulaError} (pending : Pending before)
    (fails : ∀ names, Parser.front names rest = .error error) (names : List String) :
    Parser.front names (before ++ rest) = .error error := by
  induction pending generalizing names with
  | nothing => exact fails names
  | negation _ ih => simp [ih]
  | bracket _ ih => exact Parser.front_opening_of_error (ih names)
  | @operand before d sound c _ ih =>
    have split : Token.opening :: (d.tokens ++ .connective c :: before) ++ rest =
        .opening :: (d.tokens ++ .connective c :: (before ++ rest)) := by simp
    rw [split, Parser.front_bracket sound (Parser.isFirst_connective d c _)]
    simp [ih, Except.map]

def FailsInside (tokens : List Token) (error : FormulaError) : Prop :=
  ∃ before run rest, tokens = before ++ (run ++ rest) ∧ Pending before ∧ Stuck run rest.head? error

section Failures

variable {tokens rest : List Token} {error : FormulaError} {d : Derivation}

theorem Stuck.fails {run : List Token} (stuck : Stuck run rest.head? error) :
    FailsInside (run ++ rest) error := ⟨[], run, rest, rfl, .nothing, stuck⟩

theorem FailsInside.negation (fails : FailsInside rest error) :
    FailsInside (.not :: rest) error := by
  obtain ⟨before, run, left, rfl, pending, stuck⟩ := fails
  exact ⟨.not :: before, run, left, rfl, pending.negation, stuck⟩

theorem FailsInside.bracket (fails : FailsInside rest error) :
    FailsInside (.opening :: rest) error := by
  obtain ⟨before, run, left, rfl, pending, stuck⟩ := fails
  exact ⟨.opening :: before, run, left, rfl, pending.bracket, stuck⟩

theorem FailsInside.operand (sound : d.IsSound) (c : Connective) (fails : FailsInside rest error) :
    FailsInside (.opening :: (d.tokens ++ .connective c :: rest)) error := by
  obtain ⟨before, run, left, rfl, pending, stuck⟩ := fails
  exact ⟨.opening :: (d.tokens ++ .connective c :: before), run, left, by simp,
    pending.operand sound c, stuck⟩

end Failures

namespace Parser

def Explained (tokens : List Token) : Prop :=
  ∀ names error, front names tokens = .error error → FailsInside tokens error

variable {names : List String} {tokens rest : List Token} {error : FormulaError} {d : Derivation}

theorem error_of_map_some {r : Except FormulaError Piece} (failed : r.map some = .error error) :
    r = .error error := by
  cases r with
  | error other =>
    cases failed
    rfl
  | ok p => cases failed

theorem fails_of_back (sound : d.IsSound) (first : d.IsFirst rest.head?)
    (shorter : ∀ less : List Token, less.length < rest.length → Explained less)
    (failed : back names d.expr rest = .error error) :
    FailsInside (.opening :: (d.tokens ++ rest)) error := by
  by_cases other : ∀ c more, rest ≠ .connective c :: more
  · rw [back_other other] at failed
    cases failed
    refine Stuck.fails (.operator sound first fun c head => ?_)
    obtain ⟨more, same⟩ := List.head?_eq_some_iff.mp head
    exact other c more same
  · simp only [ne_eq, not_forall, Decidable.not_not] at other
    obtain ⟨c, more, rfl⟩ := other
    rw [back_connective] at failed
    rcases inner : front names more with wrong | _ | p
    · simp only [inner] at failed
      cases failed
      exact (shorter more (by simp) names error inner).operand sound c
    · simp only [inner] at failed
      cases failed
      have run : Token.opening :: (d.tokens ++ .connective c :: more) =
          .opening :: (d.tokens ++ [.connective c]) ++ more := by simp
      rw [run]
      exact (Stuck.operand sound c (front_eq_none_iff.mp inner)).fails
    · obtain ⟨second, piece⟩ := front_eq_some_iff.mp inner
      simp only [inner] at failed
      split at failed
      · cases failed
      · rename_i unclosed
        cases failed
        have run : Token.opening :: (d.tokens ++ .connective c :: more) =
            .opening :: (d.tokens ++ .connective c :: second.tokens) ++ p.rest := by
          simp [piece.split]
        rw [run, piece.same]
        refine Stuck.fails (.application sound c piece.sound fun head => ?_)
        obtain ⟨after, closed⟩ := List.head?_eq_some_iff.mp head
        exact unclosed after closed

theorem explained_opening_not
    (shorter : ∀ less : List Token, less.length ≤ rest.length → Explained less) :
    Explained (.opening :: .not :: rest) := by
  intro names error failed
  rw [front_opening_not] at failed
  rcases inner : front names rest with wrong | _ | p
  · simp only [inner] at failed
    cases failed
    exact (shorter rest (Nat.le_refl _) names error inner).negation.bracket
  · simp only [inner] at failed
    cases failed
    exact (Stuck.fails (.negated (front_eq_none_iff.mp inner))).bracket
  · obtain ⟨d, piece⟩ := front_eq_some_iff.mp inner
    simp only [inner] at failed
    split at failed
    · rename_i ended
      cases failed
      have run : Token.opening :: .not :: rest = .opening :: .not :: d.tokens ++ [] := by
        simp [piece.split, ended]
      rw [run, piece.same]
      exact Stuck.fails (.negation piece.sound)
    · cases failed
    · rename_i next after other left
      have run : Token.opening :: .not :: rest =
          .opening :: ((Derivation.bare d).tokens ++ next :: after) := by
        simp [piece.split, left, Derivation.tokens]
      have small : (next :: after).length ≤ rest.length := by simp [piece.split, left]
      rw [piece.same] at failed
      rw [run]
      -- The negation is the first operand of an application after all.
      refine fails_of_back (d := .bare d) piece.sound ?_
        (fun less smaller => shorter less (by omega)) (error_of_map_some failed)
      intro _ _
      exact ⟨next, rfl, fun closed => other closed⟩

theorem explained_opening (head : rest.head? ≠ some .not)
    (shorter : ∀ less : List Token, less.length ≤ rest.length → Explained less) :
    Explained (.opening :: rest) := by
  intro names error failed
  rw [front_opening head] at failed
  rcases inner : front names rest with wrong | _ | p
  · simp only [inner] at failed
    cases failed
    exact (shorter rest (Nat.le_refl _) names error inner).bracket
  · simp only [inner] at failed
    cases failed
    exact Stuck.fails (.opened (front_eq_none_iff.mp inner))
  · obtain ⟨d, piece⟩ := front_eq_some_iff.mp inner
    have small : p.rest.length ≤ rest.length := by simp [piece.split]
    simp only [inner] at failed
    rw [piece.same] at failed
    rw [piece.split] at head ⊢
    refine fails_of_back piece.sound ?_ (fun less smaller => shorter less (by omega))
      (error_of_map_some failed)
    rintro operand rfl
    exact absurd rfl head

theorem explained (tokens : List Token) : Explained tokens := by
  -- The second operand of a bracket begins anywhere in it, so the induction is on the length.
  induction size : tokens.length using Nat.strongRecOn generalizing tokens with
  | ind n ih =>
    have shorter : ∀ less : List Token, less.length < tokens.length → Explained less :=
      fun less smaller => ih less.length (size ▸ smaller) less rfl
    cases tokens with
    | nil =>
      intro names error failed
      simp at failed
    | cons t rest =>
      cases t with
      | opening =>
        have inside : ∀ less : List Token, less.length ≤ rest.length → Explained less :=
          fun less small => shorter less (Nat.lt_succ_of_le small)
        by_cases head : rest.head? = some .not
        · obtain ⟨more, rfl⟩ := eq_not_cons_of_head? head
          exact explained_opening_not fun less small => inside less (Nat.le_succ_of_le small)
        · exact explained_opening head inside
      | connective c =>
        intro names error failed
        simp at failed
      | closing =>
        intro names error failed
        simp at failed
      | word text =>
        intro names error failed
        rw [front_word] at failed
        cases wrong : Word.read text with
        | ok leaf => simp [wrong] at failed
        | error problem =>
          simp only [wrong, Except.error.injEq] at failed
          subst failed
          have stuck : Stuck [] (Token.word text :: rest).head? (.word problem) := .word wrong
          exact stuck.fails
      | not =>
        intro names error failed
        rw [front_not] at failed
        rcases inner : front names rest with wrong | _ | p
        · simp only [inner] at failed
          cases failed
          exact (shorter rest (by simp) names error inner).negation
        · simp only [inner] at failed
          cases failed
          exact Stuck.fails (.negated (front_eq_none_iff.mp inner))
        · simp [inner] at failed

theorem parseTokens_eq_error_iff : parseTokens tokens = .error error ↔ Rejected tokens error := by
  constructor
  · intro failed
    rw [parseTokens_eq] at failed
    rcases read : front [] tokens with wrong | _ | p
    · simp only [read] at failed
      cases failed
      obtain ⟨before, run, rest, rfl, pending, stuck⟩ := explained tokens [] error read
      exact .inside pending stuck
    · have absent := front_eq_none_iff.mp read
      simp only [read] at failed
      cases tokens with
      | nil =>
        cases failed
        exact .empty
      | cons next rest =>
        cases failed
        exact .misplaced (absent next rfl) rest
    · obtain ⟨d, sound, split, same, noted⟩ := front_eq_some_iff.mp read
      simp only [read] at failed
      split at failed
      · rename_i next rest left
        cases failed
        rw [split, left, same]
        exact .leftover sound next rest
      · rename_i ended
        split at failed
        · rename_i nameless
          cases failed
          rw [split, ended, List.append_nil]
          have none := List.isEmpty_iff.mp nameless
          rw [noted, enlistAll_eq_eraseDups] at none
          refine .constant sound ?_
          cases named : d.expr.names with
          | nil => rfl
          | cons name more => simp [named, List.eraseDups_cons] at none
        · cases failed
  · intro rejected
    cases rejected with
    | empty => simp [parseTokens_eq]
    | constant sound nameless =>
      rw [parseTokens_whole sound, nameless]
      rfl
    | misplaced absent rest =>
      rw [parseTokens_eq, front_eq_none_iff.mpr]
      intro t head
      cases head
      exact absent
    | leftover sound next rest => exact parseTokens_leftover sound next rest
    | inside pending stuck => rw [parseTokens_eq, pending.front stuck.front]

end Parser

def StopsAfter (tokens seen : List Token) : Prop :=
  (seen = tokens ∧ Viable tokens) ∨ ∃ next, BreaksAt tokens (seen ++ [next])

theorem BreaksAt.not_viable {tokens broken : List Token} (breaks : BreaksAt tokens broken) :
    ¬Viable tokens := fun viable => breaks.impossible (viable.of_prefix breaks.begins)

theorem breaksAt_of_settled {seen after : List Token} {next : Token} {error : FormulaError}
    (viable : Viable seen) (settled : Parser.Settled (seen ++ [next]) error) :
    BreaksAt (seen ++ next :: after) (seen ++ [next]) where
  begins := ⟨after, by simp⟩
  impossible := Parser.not_viable_of_settled settled
  shortest := by
    intro front begins shorter
    rcases List.prefix_concat_iff.mp begins with same | within
    · exact absurd same shorter
    · exact viable.of_prefix within

theorem Stuck.breaksAt {before run : List Token} {next : Token} {error : FormulaError}
    (stuck : Stuck run (some next) error) (pending : Pending before) (after : List Token) :
    BreaksAt (before ++ run ++ next :: after) (before ++ run ++ [next]) := by
  have settled : Parser.Settled (before ++ run ++ [next]) error := by
    rintro _ ⟨more, rfl⟩
    have inner (names : List String) : Parser.front names (run ++ next :: more) = .error error :=
      stuck.front names
    rw [Parser.parseTokens_eq, List.append_assoc, List.append_assoc, List.singleton_append,
      pending.front inner]
  exact breaksAt_of_settled (pending.viable stuck.viable) settled

theorem Stuck.stopsAfter {before run rest : List Token} {error : FormulaError}
    (stuck : Stuck run rest.head? error) (pending : Pending before) :
    StopsAfter (before ++ (run ++ rest)) (before ++ run) := by
  cases rest with
  | nil =>
    rw [List.append_nil]
    exact .inl ⟨rfl, pending.viable stuck.viable⟩
  | cons next after =>
    rw [← List.append_assoc]
    exact .inr ⟨next, Stuck.breaksAt stuck pending after⟩

theorem breaksAt_misplaced {next : Token} (absent : next.begins = false) (rest : List Token) :
    BreaksAt (next :: rest) [next] := by
  have settled : Parser.Settled ([] ++ [next]) (.unexpected next none) := by
    rintro _ ⟨more, rfl⟩
    exact Parser.parseTokens_eq_error_iff.mpr (.misplaced absent more)
  exact breaksAt_of_settled .nil settled

theorem breaksAt_leftover {d : Derivation} (sound : d.IsSound) (next : Token)
    (rest : List Token) : BreaksAt (d.tokens ++ next :: rest) (d.tokens ++ [next]) := by
  have settled : Parser.Settled (d.tokens ++ [next]) (.unexpected next (some d.expr)) := by
    rintro _ ⟨more, rfl⟩
    rw [List.append_assoc, List.singleton_append, Parser.parseTokens_leftover sound]
  exact breaksAt_of_settled (Derivation.viable sound) settled

end TruthTables

import TruthTables.Proofs.Acceptance

namespace TruthTables

-- Some formula begins with the tokens; it need not have a variable.
def Viable (tokens : List Token) : Prop := ∃ more e, Derives (tokens ++ more) e

-- The beginning of the tokens up to and with the first after which no formula is possible.
structure BreaksAt (tokens broken : List Token) : Prop where
  begins : broken <+: tokens
  impossible : ¬Viable broken
  shortest : ∀ front, front <+: broken → front ≠ broken → Viable front

section Viability

variable {tokens front : List Token} {d : Derivation}

theorem viable_iff : Viable tokens ↔ ∃ d : Derivation, d.IsSound ∧ tokens <+: d.tokens := by
  constructor
  · rintro ⟨more, e, derived⟩
    obtain ⟨d, sound, whole, _⟩ := derives_iff.mp derived
    exact ⟨d, sound, more, whole.symm⟩
  · rintro ⟨d, sound, more, whole⟩
    exact ⟨more, d.expr, whole ▸ Derivation.derives sound⟩

theorem Derivation.viable (sound : d.IsSound) : Viable d.tokens :=
  viable_iff.mpr ⟨d, sound, List.prefix_refl _⟩

theorem Viable.of_prefix (viable : Viable tokens) (begins : front <+: tokens) : Viable front := by
  obtain ⟨d, sound, whole⟩ := viable_iff.mp viable
  exact viable_iff.mpr ⟨d, sound, begins.trans whole⟩

theorem Viable.nil : Viable [] :=
  viable_iff.mpr ⟨.leaf "0", .inr (.inl rfl), List.nil_prefix⟩

theorem Viable.bare (viable : Viable tokens) : Viable (.not :: tokens) := by
  obtain ⟨d, sound, more, whole⟩ := viable_iff.mp viable
  exact viable_iff.mpr ⟨.bare d, sound, more, by rw [Derivation.tokens, ← whole]; rfl⟩

theorem Viable.opened (viable : Viable tokens) : Viable (.opening :: tokens) := by
  obtain ⟨d, sound, more, whole⟩ := viable_iff.mp viable
  have zero : (Derivation.leaf "0").IsSound := .inr (.inl rfl)
  exact viable_iff.mpr ⟨.applied .and d (.leaf "0"), ⟨sound, zero⟩,
    more ++ Token.connective .and :: ([Token.word "0"] ++ [Token.closing]), by
      simp [Derivation.tokens, ← whole]⟩

theorem Viable.second (viable : Viable tokens) (sound : d.IsSound) (c : Connective) :
    Viable (.opening :: (d.tokens ++ .connective c :: tokens)) := by
  obtain ⟨other, soundOther, more, whole⟩ := viable_iff.mp viable
  exact viable_iff.mpr ⟨.applied c d other, ⟨sound, soundOther⟩, more ++ [Token.closing], by
    simp [Derivation.tokens, ← whole]⟩

theorem exists_breaksAt (impossible : ¬Viable tokens) : ∃ broken, BreaksAt tokens broken := by
  obtain ⟨broken, first⟩ := exists_losesAt impossible
  exact ⟨broken, first.begins, first.lacks, first.shortest⟩

end Viability

namespace Parser

variable {names : List String} {tokens : List Token} {error : FormulaError} {d : Derivation}

theorem front_opening_of_error (found : front names tokens = .error error) :
    front names (.opening :: tokens) = .error error := by
  by_cases head : tokens.head? = some .not
  · obtain ⟨more, rfl⟩ := eq_not_cons_of_head? head
    cases inner : front names more with
    | error other => simpa [inner] using found
    | ok read =>
      cases read with
      | none => simpa [inner] using found
      | some p => simp [inner] at found
  · rw [front_opening head, found]

-- A bracket goes on after its first operand, unless the operand is a bare negation and the bracket
-- is closed right after it.
theorem front_opening_of_derivation (sound : d.IsSound) {t : Token}
    (other : t = .closing → ∀ operand, d ≠ .bare operand) (more : List Token) :
    front names (.opening :: (d.tokens ++ t :: more)) =
      (back (enlistAll names d.expr.names) d.expr (t :: more)).map some := by
  cases d with
  | bare operand =>
    have inner := front_of_derivation (d := operand) sound names (t :: more)
    rw [Derivation.tokens, List.cons_append, front_opening_not, inner]
    cases t with
    | closing => exact absurd rfl (other rfl operand)
    | not | connective | opening | word => rfl
  | leaf | bracketed | applied =>
    rw [front_opening (by simp [Derivation.tokens]), front_of_derivation sound]

def Fails (tokens : List Token) (error : FormulaError) : Prop :=
  ∀ names more, front names (tokens ++ more) = .error error

inductive Beginning (tokens : List Token) : Prop where
  | whole (d : Derivation) (rest : List Token) (sound : d.IsSound)
      (split : tokens = d.tokens ++ rest)
  | unfinished (viable : Viable tokens)
  | nothing (t : Token) (rest : List Token) (split : tokens = t :: rest)
      (absent : ∀ names more, front names (t :: more) = .ok none)
  | wrong (error : FormulaError) (fails : Fails tokens error)

theorem beginning_application (sound : d.IsSound) {t : Token} {after : List Token}
    (other : t = .closing → ∀ operand, d ≠ .bare operand) (second : Beginning after) :
    Beginning (.opening :: (d.tokens ++ t :: after)) := by
  have opened (names : List String) (more : List Token) :
      front names (.opening :: (d.tokens ++ t :: after) ++ more) =
        (back (enlistAll names d.expr.names) d.expr (t :: (after ++ more))).map some := by
    rw [List.cons_append, List.append_assoc, List.cons_append]
    exact front_opening_of_derivation sound other (after ++ more)
  by_cases operator : ∃ c, t = .connective c
  · obtain ⟨c, rfl⟩ := operator
    cases second with
    | whole operand rest soundOperand split =>
      subst split
      cases rest with
      | nil =>
        rw [List.append_nil]
        exact .unfinished ((Derivation.viable soundOperand).second sound c)
      | cons next rest =>
        cases next with
        | closing =>
          refine .whole (.applied c d operand) rest ⟨sound, soundOperand⟩ ?_
          simp [Derivation.tokens]
        | not | connective | opening | word =>
          refine .wrong (.unclosed (.application d.expr c operand.expr)) fun names more => ?_
          rw [opened]
          simp [front_of_derivation soundOperand, Except.map]
    | unfinished viable => exact .unfinished (viable.second sound c)
    | nothing next rest split absent =>
      subst split
      refine .wrong (.noOperand d.expr c (some next)) fun names more => ?_
      rw [opened]
      simp [absent, Except.map]
    | wrong error fails =>
      refine .wrong error fun names more => ?_
      rw [opened]
      simp [fails _ more, Except.map]
  · refine .wrong (.noOperator d.expr (some t)) fun names more => ?_
    rw [opened, back_other fun c rest same => operator ⟨c, (List.cons.inj same).1⟩]
    rfl

theorem beginning_word (text : String) (rest : List Token) : Beginning (.word text :: rest) := by
  cases known : Word.read text with
  | ok leaf =>
    obtain ⟨sound, _⟩ := Word.read_eq_ok_iff.mp known
    exact .whole (.leaf text) rest sound rfl
  | error error =>
    refine .wrong (.word error) fun names more => ?_
    simp [known]

theorem beginning_not (inner : Beginning tokens) : Beginning (.not :: tokens) := by
  cases inner with
  | whole d rest sound split => exact .whole (.bare d) rest sound (by rw [split]; rfl)
  | unfinished viable => exact .unfinished viable.bare
  | nothing next rest split absent =>
    subst split
    refine .wrong .nothingNegated fun names more => ?_
    simp [absent]
  | wrong error fails =>
    refine .wrong error fun names more => ?_
    simp [fails names more]

theorem beginning_opening (inner : Beginning tokens)
    (later : ∀ less : List Token, less.length < tokens.length → Beginning less) :
    Beginning (.opening :: tokens) := by
  cases inner with
  | unfinished viable => exact .unfinished viable.opened
  | wrong error fails =>
    exact .wrong error fun names more => front_opening_of_error (fails names more)
  | nothing next rest split absent =>
    subst split
    refine .wrong (.nothingOpened (some next)) fun names more => ?_
    have other : next ≠ .not := by
      rintro rfl
      have negation := absent [] [.word "0"]
      rw [front_not, front_word] at negation
      cases negation
    rw [List.cons_append, List.cons_append, front_opening (by simpa using other), absent]
    rfl
  | whole d rest sound split =>
    subst split
    cases rest with
    | nil =>
      rw [List.append_nil]
      exact .unfinished (Derivation.viable sound).opened
    | cons next after =>
      have second : Beginning after := later after (by simp; omega)
      by_cases closed : next = .closing ∧ ∃ operand, d = .bare operand
      · obtain ⟨rfl, operand, rfl⟩ := closed
        refine .whole (.bracketed operand) after sound ?_
        simp [Derivation.tokens]
      · refine beginning_application sound (fun same operand bare => ?_) second
        exact closed ⟨same, operand, bare⟩

theorem beginning (tokens : List Token) : Beginning tokens := by
  induction size : tokens.length using Nat.strongRecOn generalizing tokens with
  | ind n ih =>
    have shorter : ∀ less : List Token, less.length < tokens.length → Beginning less :=
      fun less smaller => ih less.length (size ▸ smaller) less rfl
    cases tokens with
    | nil => exact .unfinished .nil
    | cons t rest =>
      have inner : Beginning rest := shorter rest (by simp)
      cases t with
      | connective c => exact .nothing _ rest rfl fun _ _ => by simp
      | closing => exact .nothing _ rest rfl fun _ _ => by simp
      | word text => exact beginning_word text rest
      | not => exact beginning_not inner
      | opening =>
        refine beginning_opening inner fun less smaller => shorter less ?_
        exact smaller.trans (by simp)

-- The error is settled: the parser fails with it, and so with its one message, on every list that
-- begins with the tokens.
def Settled (tokens : List Token) (error : FormulaError) : Prop :=
  ∀ all, tokens <+: all → parseTokens all = .error error

theorem parseTokens_leftover (sound : d.IsSound) (next : Token) (more : List Token) :
    parseTokens (d.tokens ++ next :: more) = .error (.unexpected next (some d.expr)) := by
  rw [parseTokens_eq, front_of_derivation sound]

theorem parseTokens_whole (sound : d.IsSound) :
    parseTokens d.tokens =
      if d.expr.names.eraseDups.isEmpty then .error .noVariable
      else .ok ⟨d.expr, d.expr.names.eraseDups⟩ := by
  have read := front_of_derivation sound [] []
  rw [List.append_nil, enlistAll_eq_eraseDups] at read
  rw [parseTokens_eq, read]

theorem exists_settled (impossible : ¬Viable tokens) : ∃ error, Settled tokens error := by
  cases beginning tokens with
  | whole d rest sound split =>
    cases rest with
    | nil =>
      rw [split, List.append_nil] at impossible
      exact absurd (Derivation.viable sound) impossible
    | cons next rest =>
      refine ⟨.unexpected next (some d.expr), ?_⟩
      rintro _ ⟨more, rfl⟩
      rw [split, List.append_assoc, List.cons_append, parseTokens_leftover sound]
  | unfinished viable => exact absurd viable impossible
  | nothing next rest split absent =>
    refine ⟨.unexpected next none, ?_⟩
    rintro _ ⟨more, rfl⟩
    rw [split, List.cons_append, parseTokens_eq, absent]
  | wrong error fails =>
    refine ⟨error, ?_⟩
    rintro _ ⟨more, rfl⟩
    rw [parseTokens_eq, fails]

theorem not_viable_of_settled (settled : Settled tokens error) : ¬Viable tokens := by
  intro viable
  obtain ⟨d, sound, begins⟩ := viable_iff.mp viable
  have alone := settled d.tokens begins
  have more := settled (d.tokens ++ [.closing]) (begins.trans (List.prefix_append _ _))
  rw [parseTokens_leftover sound] at more
  cases more
  rw [parseTokens_whole sound] at alone
  split at alone <;> cases alone

theorem exists_error_of_not_derives (unfinished : ¬∃ e, Derives tokens e) :
    ∃ error, parseTokens tokens = .error error := by
  cases outcome : parseTokens tokens with
  | error error => exact ⟨error, rfl⟩
  | ok parsed =>
    obtain ⟨d, sound, rfl, _⟩ := parseTokens_eq_ok_iff.mp outcome
    exact absurd ⟨d.expr, Derivation.derives sound⟩ unfinished

theorem exists_error_iff_of_derives {e : Expr} (derived : Derives tokens e) :
    (∃ error, parseTokens tokens = .error error) ↔ Token.names tokens = [] := by
  obtain ⟨d, sound, rfl, rfl⟩ := derives_iff.mp derived
  rw [parseTokens_whole sound, Derivation.names_tokens]
  cases named : d.expr.names with
  | nil => simp
  | cons name rest => simp [List.eraseDups_cons]

end Parser

theorem syntax_errors_are_settled_early (tokens : List Token) :
    (¬Viable tokens → ∃ broken error, BreaksAt tokens broken ∧ Parser.Settled broken error ∧
      ∀ front other, front <+: tokens → Parser.Settled front other → broken <+: front) ∧
    ((¬∃ e, Derives tokens e) → ∃ error, Parser.parseTokens tokens = .error error) ∧
    ∀ e, Derives tokens e →
      ((∃ error, Parser.parseTokens tokens = .error error) ↔ Token.names tokens = []) := by
  refine ⟨fun impossible => ?_, Parser.exists_error_of_not_derives,
    fun e => Parser.exists_error_iff_of_derives⟩
  obtain ⟨broken, breaks⟩ := exists_breaksAt impossible
  obtain ⟨error, settled⟩ := Parser.exists_settled breaks.impossible
  refine ⟨broken, error, breaks, settled, fun front other begins early => ?_⟩
  rcases List.prefix_or_prefix_of_prefix breaks.begins begins with later | earlier
  · exact later
  · by_cases same : front = broken
    · rw [same]
    · exact absurd (breaks.shortest front earlier same) (Parser.not_viable_of_settled early)

-- An operator where a bracket has to be closed, the same tokens up to that place, and a formula
-- without a variable.
theorem syntax_errors_are_settled_early_unclosed :
    let read : List Token := [.opening, .word "x", .connective .or, .word "y"]
    let tokens := read ++ [.connective .and, .word "z", .closing]
    (¬Viable tokens ∧ ∃ broken error, BreaksAt tokens broken ∧ Parser.Settled broken error ∧
      ∀ front other, front <+: tokens → Parser.Settled front other → broken <+: front) ∧
    ((¬∃ e, Derives read e) ∧ ∃ error, Parser.parseTokens read = .error error) ∧
    Derives [.not, .word "0"] (.not (.const 0)) ∧
      ((∃ error, Parser.parseTokens [.not, .word "0"] = .error error) ↔
        Token.names [.not, .word "0"] = []) := by
  intro read tokens
  have wrong : Parser.Settled (read ++ [.connective .and])
      (.unclosed (.application (.atom "x") .or (.atom "y"))) := by
    rintro _ ⟨more, rfl⟩
    have x : Word.read "x" = .ok (.atom "x") := by rfl
    have y : Word.read "y" = .ok (.atom "y") := by rfl
    have failing : Parser.front [] (read ++ [.connective .and] ++ more) =
        .error (.unclosed (.application (.atom "x") .or (.atom "y"))) := by
      simp only [read, List.cons_append, List.nil_append]
      rw [Parser.front_opening (by simp), Parser.front_word, x]
      dsimp only
      rw [Parser.back_connective, Parser.front_word, y]
      rfl
    rw [Parser.parseTokens_eq, failing]
  have impossible : ¬Viable tokens := fun viable =>
    Parser.not_viable_of_settled wrong (viable.of_prefix ⟨[.word "z", .closing], rfl⟩)
  have unfinished : ¬∃ e, Derives read e := by
    rintro ⟨e, derived⟩
    obtain ⟨d, sound, whole, _⟩ := derives_iff.mp derived
    have read := Parser.parseTokens_leftover sound (.connective .and) []
    rw [whole, wrong _ (List.prefix_refl _)] at read
    cases read
  have constant : Derives [.not, .word "0"] (.not (.const 0)) := .bare .zero
  exact ⟨⟨impossible, (syntax_errors_are_settled_early tokens).1 impossible⟩,
    ⟨unfinished, (syntax_errors_are_settled_early read).2.1 unfinished⟩,
    constant, (syntax_errors_are_settled_early [.not, .word "0"]).2.2 _ constant⟩

end TruthTables

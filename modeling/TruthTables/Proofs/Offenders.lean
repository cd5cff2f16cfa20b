import TruthTables.Proofs.Quotations

namespace TruthTables

def Word.Possible (chars : List Char) : Prop :=
  ∃ leaf : String, Word.IsLeaf leaf ∧ chars <+: leaf.toList

-- What tells the token: its text, or the part of a word up to the first character that is wrong.
inductive Token.Offends : Token → String → Prop where
  | whole {t : Token} (possible : ∀ word, t = .word word → Word.Possible word.toList) :
      Offends t t.text
  | beginning {word part : String} (first : LosesAt Word.Possible word.toList part.toList) :
      Offends (.word word) part

def NothingNegated (seen : List Token) (next : Token) : Prop :=
  seen.getLast? = some .not ∧ next.begins = false

def OnlyCloses (seen : List Token) : Prop := ∀ t, Viable (seen ++ [t]) ↔ t = .closing

structure Told (seen : List Token) (next : Token) (error : FormulaError) : Prop where
  negation : NothingNegated seen next →
    error.message = "No operand found for operator '" ++ negationSymbol ++ "'"
  bracket : OnlyCloses seen →
    ∃ quoted, error.message = "No closing bracket found after '" ++ quoted ++ "'"
  named : ¬NothingNegated seen next → ¬OnlyCloses seen →
    ∃ part, next.Offends part ∧ part.toList <:+: error.message.toList

section Words

variable {word : String} {chars : List Char} {error : WordError}

theorem Word.Possible.isPlain (possible : Word.Possible chars) : Word.IsPlain chars := by
  obtain ⟨leaf, named | rfl | rfl, begins⟩ := possible
  · exact named.isPlain.of_prefix begins
  · exact Word.IsPlain.of_prefix (Word.isPlain_iff.mpr (by decide)) begins
  · exact Word.IsPlain.of_prefix (Word.isPlain_iff.mpr (by decide)) begins

theorem Word.exists_offends (impossible : ¬Word.Possible word.toList) :
    ∃ part : String, LosesAt Word.Possible word.toList part.toList := by
  obtain ⟨part, first⟩ := exists_losesAt impossible
  exact ⟨.ofList part, by rwa [String.toList_ofList]⟩

theorem Token.exists_offends (t : Token) :
    ∃ part : String, t.Offends part ∧ part.toList <+: t.text.toList := by
  by_cases possible : ∀ word, t = .word word → Word.Possible word.toList
  · exact ⟨t.text, .whole possible, List.prefix_refl _⟩
  · simp only [not_forall] at possible
    obtain ⟨word, rfl, impossible⟩ := possible
    obtain ⟨part, first⟩ := Word.exists_offends impossible
    exact ⟨part, .beginning first, first.begins⟩

theorem Token.named_of_split {t : Token} {message : String} (front back : String)
    (split : message = front ++ t.text ++ back) :
    ∃ part, t.Offends part ∧ part.toList <:+: message.toList := by
  obtain ⟨part, offends, begins⟩ := t.exists_offends
  have within : t.text.toList <:+: message.toList :=
    ⟨front.toList, back.toList, by simp [split]⟩
  exact ⟨part, offends, begins.isInfix.trans within⟩

theorem Token.named_of_description {t : Token} {message : String} (front back : String)
    (split : message = front ++ describeNext (some t) ++ back) :
    ∃ part, t.Offends part ∧ part.toList <:+: message.toList := by
  refine named_of_split (front ++ "'") ("'" ++ back) ?_
  simp only [split, describeNext, String.append_assoc]

theorem Word.named_of_error (failed : Word.read word = .error error) :
    ∃ part, (Token.word word).Offends part ∧ part.toList <:+: error.message.toList := by
  by_cases plain : Word.IsPlain word.toList
  · rcases Word.error_of_isPlain plain failed with rfl | ⟨rfl, _⟩
    · exact Token.named_of_split "Invalid atomic '" "'" rfl
    · exact Token.named_of_split "Atomic name '" "' is reserved" rfl
  · obtain ⟨shown, later, found⟩ := Word.read_of_not_isPlain plain
    rw [found] at failed
    cases failed
    -- What is shown need not be the shortest, as in 10a, where the second digit would do.
    obtain ⟨part, first⟩ := Word.exists_offends fun possible => plain possible.isPlain
    have within := first.prefix_of_lacks later.begins fun possible => later.lacks possible.isPlain
    refine ⟨part, .beginning first, within.isInfix.trans ?_⟩
    exact ⟨"Invalid atomic '".toList, "'".toList, by simp [message_malformed]⟩

end Words

section Tokens

variable {before run seen : List Token} {next : Token} {error : FormulaError}
  {d second : Derivation}

theorem Derivation.exists_last (d : Derivation) :
    ∃ front last, d.tokens = front ++ [last] ∧ last ≠ .not := by
  induction d with
  | leaf word => exact ⟨[], .word word, rfl, by simp⟩
  | bare operand ih =>
    obtain ⟨front, last, split, other⟩ := ih
    exact ⟨.not :: front, last, by simp [tokens, split], other⟩
  | bracketed operand =>
    exact ⟨.opening :: .not :: operand.tokens, .closing, by simp [tokens], by simp⟩
  | applied c left right =>
    exact ⟨.opening :: (left.tokens ++ .connective c :: right.tokens), .closing, by simp [tokens],
      by simp⟩

theorem not_nothingNegated_of_last {last : Token} (other : last ≠ .not) :
    ¬NothingNegated (seen ++ [last]) next := by
  rintro ⟨ended, _⟩
  rw [List.getLast?_concat] at ended
  exact other (Option.some.inj ended)

theorem not_nothingNegated_of_derivation (d : Derivation) :
    ¬NothingNegated (seen ++ d.tokens) next := by
  obtain ⟨front, last, split, other⟩ := d.exists_last
  rw [split, ← List.append_assoc]
  exact not_nothingNegated_of_last other

theorem Pending.not_onlyCloses (pending : Pending before) {t : Token} (viable : Viable (run ++ [t]))
    (other : t ≠ .closing) : ¬OnlyCloses (before ++ run) := by
  intro closes
  have whole := pending.viable viable
  rw [← List.append_assoc] at whole
  exact other ((closes t).mp whole)

theorem Viable.leaf : Viable [.word "0"] :=
  Derivation.viable (d := .leaf "0") (.inr (.inl rfl))

theorem onlyCloses_application (pending : Pending before) (sound : d.IsSound) (c : Connective)
    (soundSecond : second.IsSound) :
    OnlyCloses (before ++ .opening :: (d.tokens ++ .connective c :: second.tokens)) := by
  intro t
  constructor
  · intro viable
    by_contra other
    have unclosed : some t ≠ some .closing := by simpa using other
    have stuck := Stuck.application sound c soundSecond unclosed
    exact (stuck.breaksAt pending []).impossible viable
  · rintro rfl
    have whole : (Derivation.applied c d second).IsSound := ⟨sound, soundSecond⟩
    have closed := pending.viable (Derivation.viable whole)
    simpa [Derivation.tokens] using closed

theorem Told.of_named (negated : ¬NothingNegated seen next) (continues : ¬OnlyCloses seen)
    (named : ∃ part, next.Offends part ∧ part.toList <:+: error.message.toList) :
    Told seen next error where
  negation := fun other => absurd other negated
  bracket := fun other => absurd other continues
  named := fun _ _ => named

theorem Stuck.told (stuck : Stuck run (some next) error) (pending : Pending before) :
    Told (before ++ run) next error := by
  cases stuck with
  | word wrong =>
    refine .of_named ?_ (pending.not_onlyCloses Viable.leaf nofun) (Word.named_of_error wrong)
    rintro ⟨_, absent⟩
    cases absent
  | negated absent =>
    have negated : NothingNegated (before ++ [.not]) next := ⟨List.getLast?_concat, absent next rfl⟩
    have viable : Viable ([.not] ++ [.word "0"]) := Viable.leaf.bare
    have continues := pending.not_onlyCloses viable nofun
    exact ⟨fun _ => rfl, fun closes => absurd closes continues, fun other => absurd negated other⟩
  | opened =>
    have viable : Viable ([.opening] ++ [.word "0"]) := Viable.leaf.opened
    refine .of_named (not_nothingNegated_of_last nofun) (pending.not_onlyCloses viable nofun) ?_
    exact Token.named_of_description "No operand found after opening bracket (unexpected " ")" rfl
  | @operator d _ sound =>
    have viable : Viable (.opening :: d.tokens ++ [.connective .and]) :=
      Viable.nil.second sound .and
    refine .of_named ?_ (pending.not_onlyCloses viable nofun)
      (Token.named_of_description _ _ (message_noOperator d.expr next))
    rw [List.append_cons]
    exact not_nothingNegated_of_derivation d
  | @operand d _ sound c =>
    have viable : Viable (.opening :: (d.tokens ++ [.connective c]) ++ [.word "0"]) := by
      simpa using Viable.leaf.second sound c
    refine .of_named ?_ (pending.not_onlyCloses viable nofun)
      (Token.named_of_description _ _ (message_noOperand d.expr c next))
    rw [← List.cons_append, ← List.append_assoc]
    exact not_nothingNegated_of_last nofun
  | @application d second _ sound c soundSecond =>
    have closes := onlyCloses_application pending sound c soundSecond
    refine ⟨fun negated => absurd negated ?_, fun _ => ⟨_, message_unclosed _⟩,
      fun _ continues => absurd closes continues⟩
    have split : before ++ .opening :: (d.tokens ++ .connective c :: second.tokens) =
        before ++ .opening :: (d.tokens ++ [.connective c]) ++ second.tokens := by simp
    rw [split]
    exact not_nothingNegated_of_derivation second

theorem told_leftover (sound : d.IsSound) (next : Token) :
    Told d.tokens next (.unexpected next (some d.expr)) := by
  have negated : ¬NothingNegated ([] ++ d.tokens) next := not_nothingNegated_of_derivation d
  refine .of_named negated ?_ ?_
  · intro closes
    exact (breaksAt_leftover sound .closing []).impossible ((closes .closing).mpr rfl)
  · have split : (FormulaError.unexpected next (some d.expr)).message =
        "Unexpected '" ++ next.text ++ ("' after '" ++ d.expr.text ++ "'") := by
      rw [message_leftover]
      simp only [String.append_assoc]
    exact Token.named_of_split _ _ split

theorem told_misplaced (next : Token) : Told [] next (.unexpected next none) := by
  refine .of_named ?_ (Pending.nothing.not_onlyCloses Viable.leaf nofun) ?_
  · rintro ⟨ended, _⟩
    cases ended
  · exact Token.named_of_split "Unexpected '" "'" rfl

theorem Rejected.told {tokens : List Token} (rejected : Rejected tokens error)
    (impossible : ¬Viable tokens) :
    ∃ seen next, BreaksAt tokens (seen ++ [next]) ∧ Told seen next error := by
  cases rejected with
  | empty => exact absurd .nil impossible
  | constant sound => exact absurd (Derivation.viable sound) impossible
  | @misplaced next absent rest =>
    exact ⟨[], next, breaksAt_misplaced absent rest, told_misplaced next⟩
  | leftover sound next rest =>
    exact ⟨_, next, breaksAt_leftover sound next rest, told_leftover sound next⟩
  | @inside before run rest _ pending stuck =>
    cases rest with
    | nil =>
      rw [List.append_nil] at impossible
      exact absurd (pending.viable stuck.viable) impossible
    | cons next after =>
      refine ⟨before ++ run, next, ?_, stuck.told pending⟩
      rw [← List.append_assoc]
      exact Stuck.breaksAt stuck pending after

end Tokens

theorem errors_name_the_token {text : String} {lexemes : List Lexeme}
    (cut : Lexer.tokenize text = .ok lexemes) (impossible : ¬Viable (lexemes.map (·.token))) :
    ∃ seen next error, BreaksAt (lexemes.map (·.token)) (seen ++ [next]) ∧
      parse text = .error error ∧ Told seen next error := by
  obtain ⟨error, settled⟩ := Parser.exists_settled impossible
  have failed := settled _ (List.prefix_refl _)
  obtain ⟨seen, next, breaks, told⟩ :=
    (Parser.parseTokens_eq_error_iff.mp failed).told impossible
  refine ⟨seen, next, error, breaks, ?_, told⟩
  rw [parse, cut]
  exact failed

-- The word is shown up to its letter, although no leaf begins with its two digits.
theorem errors_name_the_token_malformed :
    ∃ lexemes, Lexer.tokenize "(x + 10a)" = .ok lexemes ∧ ¬Viable (lexemes.map (·.token)) ∧
      ∃ seen next error, BreaksAt (lexemes.map (·.token)) (seen ++ [next]) ∧
        parse "(x + 10a)" = .error error ∧ Told seen next error := by
  have cut : Lexer.tokenize "(x + 10a)" = .ok [⟨.opening, 0⟩, ⟨.word "x", 1⟩,
      ⟨.connective .or, 2⟩, ⟨.word "10a", 3⟩, ⟨.closing, 6⟩] := by cbv
  have x : (Derivation.leaf "x").IsSound := Word.isLeaf_of_read (e := .atom "x") rfl
  have stuck : Stuck [] (some (.word "10a")) (.word (.malformed "10a")) := .word rfl
  have breaks := stuck.breaksAt (Pending.nothing.operand x .or) [.closing]
  exact ⟨_, cut, breaks.not_viable, errors_name_the_token cut breaks.not_viable⟩

-- After both operands the bracket can only be closed, and the operator found there is not shown.
theorem unclosed_bracket_hides_the_token :
    ∃ lexemes seen next error, Lexer.tokenize "(x+y•z)" = .ok lexemes ∧
      BreaksAt (lexemes.map (·.token)) (seen ++ [next]) ∧ next = .connective .and ∧
      parse "(x+y•z)" = .error error ∧ ¬next.text.toList <:+: error.message.toList := by
  have cut : Lexer.tokenize "(x+y•z)" = .ok [⟨.opening, 0⟩, ⟨.word "x", 1⟩, ⟨.connective .or, 2⟩,
      ⟨.word "y", 3⟩, ⟨.connective .and, 4⟩, ⟨.word "z", 5⟩, ⟨.closing, 6⟩] := by cbv
  have x : (Derivation.leaf "x").IsSound := Word.isLeaf_of_read (e := .atom "x") rfl
  have y : (Derivation.leaf "y").IsSound := Word.isLeaf_of_read (e := .atom "y") rfl
  have other : some (Token.connective .and) ≠ some .closing := by simp
  have stuck := Stuck.application x .or y other
  have breaks := stuck.breaksAt .nothing [.word "z", .closing]
  have failed : parse "(x+y•z)" =
      .error (.unclosed (.application (.atom "x") .or (.atom "y"))) := by cbv
  exact ⟨_, _, _, _, cut, breaks, rfl, failed, by decide +kernel⟩

end TruthTables

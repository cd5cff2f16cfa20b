import TruthTables.Proofs.Faults
import TruthTables.Proofs.Spelling

namespace TruthTables

def Quotes (quoted : String) (run ending : List Token) : Prop :=
  ∃ e, Derives (run ++ ending) e ∧ e.text = quoted ++ String.join (ending.map Token.text)

def FormulaError.quotes : FormulaError → Bool
  | noOperator _ _ | noOperand _ _ _ | unclosed _ | unexpected _ (some _) => true
  | _ => false

section Wording

open FormulaError

theorem message_unclosed (read : Fragment) :
    (unclosed read).message = "No closing bracket found after '" ++ read.text ++ "'" := by
  have worded : (unclosed read).message =
      "No closing bracket found" ++ (" after '" ++ read.text ++ "'") := rfl
  have joined : "No closing bracket found after '" = "No closing bracket found" ++ " after '" := by
    cbv
  simp only [worded, joined, String.append_assoc]

theorem joined_after {missing opened : String} (joined : opened = missing ++ " after '")
    (read : Fragment) (next : Option Token) :
    missing ++ (" after '" ++ read.text ++ "'") ++ (" (unexpected " ++ describeNext next ++ ")") =
      opened ++ read.text ++ "' (unexpected " ++ describeNext next ++ ")" := by
  have marked : "' (unexpected " = "'" ++ " (unexpected " := by cbv
  simp only [joined, marked, String.append_assoc]

theorem message_noOperator (first : Expr) (next : Option Token) :
    (noOperator first next).message = "No operator found after '" ++
      (Fragment.begun first).text ++ "' (unexpected " ++ describeNext next ++ ")" := by
  have joined : "No operator found after '" = "No operator found" ++ " after '" := by cbv
  exact joined_after joined (.begun first) next

theorem message_noOperand (first : Expr) (c : Connective) (next : Option Token) :
    (noOperand first c next).message = "No operand found after '" ++
      (Fragment.operator first c).text ++ "' (unexpected " ++ describeNext next ++ ")" := by
  have joined : "No operand found after '" = "No operand found" ++ " after '" := by cbv
  exact joined_after joined (.operator first c) next

theorem message_malformed (part : String) :
    (WordError.malformed part).message = "Invalid atomic '" ++ part ++ "'" := rfl

theorem message_leftover (next : Token) (read : Expr) :
    (unexpected next (some read)).message =
      "Unexpected '" ++ next.text ++ "' after '" ++ read.text ++ "'" := rfl

end Wording

section Runs

variable {d second : Derivation} {word : String}

theorem quotes_of_derivation {quoted : String} {run ending : List Token} (sound : d.IsSound)
    (split : d.tokens = run ++ ending)
    (spelled : d.expr.text = quoted ++ String.join (ending.map Token.text)) :
    Quotes quoted run ending := ⟨d.expr, split ▸ Derivation.derives sound, spelled⟩

theorem quotes_leftover (sound : d.IsSound) : Quotes d.expr.text d.tokens [] :=
  quotes_of_derivation sound (by simp) (by simp)

theorem quotes_negation (sound : d.IsSound) :
    Quotes (Fragment.negation d.expr).text (.opening :: .not :: d.tokens) [.closing] := by
  refine quotes_of_derivation (d := .bracketed d) sound (by simp [Derivation.tokens]) ?_
  simp [Derivation.expr, Expr.text, Fragment.text, Token.text]

theorem quotes_application (sound : d.IsSound) (c : Connective) (soundSecond : second.IsSound) :
    Quotes (Fragment.application d.expr c second.expr).text
      (.opening :: (d.tokens ++ .connective c :: second.tokens)) [.closing] := by
  refine quotes_of_derivation (d := .applied c d second) ⟨sound, soundSecond⟩
    (by simp [Derivation.tokens]) ?_
  simp [Derivation.expr, Expr.text, Fragment.text, Token.text]

theorem quotes_operand (sound : d.IsSound) (c : Connective) (named : Word.IsName word) :
    Quotes (Fragment.operator d.expr c).text (.opening :: (d.tokens ++ [.connective c]))
      [.word word, .closing] := by
  refine quotes_of_derivation (d := .applied c d (.leaf word)) ⟨sound, .inl named⟩
    (by simp [Derivation.tokens]) ?_
  simp [Derivation.expr, Word.leaf_of_isName named, Expr.text, Fragment.text, Token.text,
    String.append_assoc]

theorem quotes_operator (sound : d.IsSound) (c : Connective) (named : Word.IsName word) :
    Quotes (Fragment.begun d.expr).text (.opening :: d.tokens)
      [.connective c, .word word, .closing] := by
  refine quotes_of_derivation (d := .applied c d (.leaf word)) ⟨sound, .inl named⟩
    (by simp [Derivation.tokens]) ?_
  simp [Derivation.expr, Word.leaf_of_isName named, Expr.text, Fragment.text, Token.text,
    String.append_assoc]

end Runs

section Stuck

variable {run : List Token} {next found : Option Token} {word : String}

theorem Stuck.quotes_unclosed {read : Fragment} (stuck : Stuck run next (.unclosed read)) :
    Quotes read.text run [.closing] := by
  cases stuck with
  | negation sound => exact quotes_negation sound
  | application sound c soundSecond => exact quotes_application sound c soundSecond

theorem Stuck.quotes_noOperator {first : Expr} (stuck : Stuck run next (.noOperator first found))
    (c : Connective) (named : Word.IsName word) :
    Quotes (Fragment.begun first).text run [.connective c, .word word, .closing] := by
  cases stuck with
  | operator sound => exact quotes_operator sound c named

theorem Stuck.quotes_noOperand {first : Expr} {c : Connective}
    (stuck : Stuck run next (.noOperand first c found)) (named : Word.IsName word) :
    Quotes (Fragment.operator first c).text run [.word word, .closing] := by
  cases stuck with
  | operand sound => exact quotes_operand sound c named

theorem Stuck.not_unexpected {token : Token} {read : Option Expr} :
    ¬Stuck run next (.unexpected token read) := nofun

end Stuck

section Messages

variable {word part : String} {error : WordError}

theorem Word.shown_prefix (failed : Word.read word = .error (.malformed part)) :
    part.toList <+: word.toList := by
  by_cases plain : Word.IsPlain word.toList
  · rcases Word.error_of_isPlain plain failed with same | ⟨other, _⟩
    · cases same
      exact List.prefix_refl _
    · cases other
  · obtain ⟨other, first, found⟩ := Word.read_of_not_isPlain plain
    rw [found] at failed
    cases failed
    exact first.begins

theorem not_quotes_malformed (solid : ∀ c ∈ part.toList, c ≠ ' ') :
    ¬" after '".toList <:+: (WordError.malformed part).message.toList := by
  rintro ⟨before, after, whole⟩
  have joined : "Invalid atomic '" = "Invalid" ++ " atomic '" := by cbv
  have message : (WordError.malformed part).message.toList =
      "Invalid".toList ++ (" atomic '".toList ++ part.toList ++ "'".toList) := by
    simp only [message_malformed, joined, String.toList_append, List.append_assoc]
  rw [message, List.append_assoc] at whole
  -- Both have two blanks. So the first one of the quotation is that of the message, and what
  -- follows it is not the same.
  have fresh : before.count ' ' = 0 := by
    have none : part.toList.count ' ' = 0 :=
      List.count_eq_zero.mpr fun blank => solid ' ' blank rfl
    have quotation : " after '".toList.count ' ' = 2 := by decide
    have word : " atomic '".toList.count ' ' = 2 := by decide
    have front : "Invalid".toList.count ' ' = 0 := by decide
    have mark : "'".toList.count ' ' = 0 := by decide
    have blanks := congrArg (List.count ' ') whole
    simp only [List.count_append] at blanks
    omega
  have early : ∀ c ∈ before, (c != ' ') = true := fun c member => by
    rw [bne_iff_ne]
    rintro rfl
    exact List.count_eq_zero.mp fresh member
  have front : ∀ c ∈ "Invalid".toList, (c != ' ') = true := List.all_eq_true.mp (by decide)
  have rest := congrArg (List.dropWhile (· != ' ')) whole
  rw [List.dropWhile_append_of_pos early, List.dropWhile_append_of_pos front] at rest
  simp at rest

theorem not_quotes_word (solid : ∀ c ∈ word.toList, c.isAlphanum)
    (failed : Word.read word = .error error) :
    ¬" after '".toList <:+: error.message.toList := by
  cases error with
  | malformed part =>
    refine not_quotes_malformed fun c member => ?_
    rintro rfl
    have alphanum := solid ' ' ((Word.shown_prefix failed).subset member)
    cases alphanum
  | reserved name =>
    have plain : Word.IsPlain word.toList := by
      by_contra faulty
      obtain ⟨part, _, found⟩ := Word.read_of_not_isPlain faulty
      rw [found] at failed
      cases failed
    rcases Word.error_of_isPlain plain failed with other | ⟨same, rfl | rfl⟩
    · cases other
    · cases same
      decide
    · cases same
      decide

-- No formula begins with the token, so it is one of five signs.
theorem not_quotes_absent {next : Option Token} (absent : Absent next) :
    ¬" after '".toList <:+: (FormulaError.nothingOpened next).message.toList := by
  cases next with
  | none => decide +kernel
  | some t =>
    cases t with
    | closing => decide +kernel
    | connective c => cases c <;> decide +kernel
    | not | opening | word => cases absent _ rfl

theorem not_quotes_misplaced {next : Token} (absent : next.begins = false) :
    ¬" after '".toList <:+: (FormulaError.unexpected next none).message.toList := by
  cases next with
  | closing => decide
  | connective c => cases c <;> decide
  | not | opening | word => cases absent

end Messages

def QuotesRun (tokens : List Token) (quoted : String) (missing : List Token → Prop) : Prop :=
  ∃ before run, StopsAfter tokens (before ++ run) ∧ ∀ ending, missing ending →
    Quotes quoted run ending

theorem Rejected.not_quotes {tokens : List Token} {error : FormulaError}
    (rejected : Rejected tokens error) (silent : error.quotes = false)
    (solid : ∀ word, .word word ∈ tokens → ∀ c ∈ word.toList, c.isAlphanum) :
    ¬" after '".toList <:+: error.message.toList := by
  cases rejected with
  | empty => decide
  | constant => decide
  | misplaced absent => exact not_quotes_misplaced absent
  | leftover => cases silent
  | @inside before run rest _ pending stuck =>
    generalize head : rest.head? = next at stuck
    cases stuck with
    | word wrong =>
      obtain ⟨more, rfl⟩ := List.head?_eq_some_iff.mp head
      exact not_quotes_word (solid _ (by simp)) wrong
    | negated => decide
    | opened absent => exact not_quotes_absent absent
    | operator | operand | negation | application => cases silent

theorem errors_quote_what_was_read {tokens : List Token} {error : FormulaError}
    (failed : Parser.parseTokens tokens = .error error) :
    (∀ read, error = .unclosed read → ∃ quoted,
      error.message = "No closing bracket found after '" ++ quoted ++ "'" ∧
      QuotesRun tokens quoted fun ending => ending = [.closing]) ∧
    (∀ first next, error = .noOperator first next → ∃ quoted,
      error.message = "No operator found after '" ++ quoted ++ "' (unexpected " ++
        describeNext next ++ ")" ∧
      QuotesRun tokens quoted fun ending => ∃ c word, Word.IsName word ∧
        ending = [.connective c, .word word, .closing]) ∧
    (∀ first c next, error = .noOperand first c next → ∃ quoted,
      error.message = "No operand found after '" ++ quoted ++ "' (unexpected " ++
        describeNext next ++ ")" ∧
      QuotesRun tokens quoted fun ending => ∃ word, Word.IsName word ∧
        ending = [.word word, .closing]) ∧
    (∀ next read, error = .unexpected next (some read) → ∃ quoted run,
      error.message = "Unexpected '" ++ next.text ++ "' after '" ++ quoted ++ "'" ∧
      BreaksAt tokens (run ++ [next]) ∧ Quotes quoted run []) ∧
    (error.quotes = false →
      (∀ word, .word word ∈ tokens → ∀ c ∈ word.toList, c.isAlphanum) →
      ¬" after '".toList <:+: error.message.toList) := by
  have rejected := Parser.parseTokens_eq_error_iff.mp failed
  refine ⟨?_, ?_, ?_, ?_, rejected.not_quotes⟩
  · rintro read rfl
    cases rejected with
    | inside pending stuck =>
      refine ⟨read.text, message_unclosed read, _, _, stuck.stopsAfter pending, ?_⟩
      rintro _ rfl
      exact stuck.quotes_unclosed
  · rintro first next rfl
    cases rejected with
    | inside pending stuck =>
      refine ⟨_, message_noOperator first next, _, _, stuck.stopsAfter pending, ?_⟩
      rintro _ ⟨c, word, named, rfl⟩
      exact stuck.quotes_noOperator c named
  · rintro first c next rfl
    cases rejected with
    | inside pending stuck =>
      refine ⟨_, message_noOperand first c next, _, _, stuck.stopsAfter pending, ?_⟩
      rintro _ ⟨word, named, rfl⟩
      exact stuck.quotes_noOperand named
  · rintro next read rfl
    cases rejected with
    | leftover sound _ rest =>
      exact ⟨_, _, message_leftover next _, breaksAt_leftover sound next rest,
        quotes_leftover sound⟩
    | inside _ stuck => exact absurd stuck Stuck.not_unexpected

-- A negation that was read without a bracket of its own is quoted with one, behind an operator that
-- still waits for its operand.
theorem errors_quote_what_was_read_bare_negation :
    let tokens : List Token := [.opening, .word "z", .connective .implies, .opening, .not,
      .word "x", .connective .and, .word "y", .word "y", .closing]
    let read := Fragment.application (.not (.atom "x")) .and (.atom "y")
    Parser.parseTokens tokens = .error (.unclosed read) ∧ read.text = "((¬x)•y" ∧
      ∃ quoted, FormulaError.message (.unclosed read) =
          "No closing bracket found after '" ++ quoted ++ "'" ∧
        QuotesRun tokens quoted fun ending => ending = [.closing] := by
  intro tokens read
  have failed : Parser.parseTokens tokens = .error (.unclosed read) := by cbv
  exact ⟨failed, by cbv, (errors_quote_what_was_read failed).1 read rfl⟩

end TruthTables

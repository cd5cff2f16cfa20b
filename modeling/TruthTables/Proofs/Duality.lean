import TruthTables.Proofs.Compounds

namespace TruthTables

def Connective.dual : Connective → Connective
  | and => or
  | or => and
  | implies => implies
  | equiv => equiv

def Polarity.other : Polarity → Polarity
  | disjunctive => conjunctive
  | conjunctive => disjunctive

-- The expression with conjunctions and disjunctions exchanged and with each literal complemented: a
-- variable becomes its negation, and a negated variable loses the negation.
def Expr.dual : Expr → Expr
  | atom name => not (atom name)
  | not (atom name) => atom name
  | not operand => not operand.dual
  | binary c left right => binary c.dual left.dual right.dual
  | pair left right => pair left.dual right.dual
  | const value => const value
  | hole => hole

namespace Polarity

@[simp] theorem other_other (polarity : Polarity) : polarity.other.other = polarity := by
  cases polarity <;> rfl

@[simp] theorem result_other (polarity : Polarity) : polarity.other.result = !polarity.result := by
  cases polarity <;> rfl

@[simp] theorem inner_other (polarity : Polarity) : polarity.other.inner = polarity.inner.dual := by
  cases polarity <;> rfl

@[simp] theorem outer_other (polarity : Polarity) : polarity.other.outer = polarity.outer.dual := by
  cases polarity <;> rfl

end Polarity

namespace Expr

@[simp] theorem dual_foldl (c : Connective) (first : Expr) (rest : List Expr) :
    (rest.foldl (binary c) first).dual = (rest.map dual).foldl (binary c.dual) first.dual := by
  induction rest generalizing first with
  | nil => rfl
  | cons next rest ih => exact ih (binary c first next)

@[simp] theorem dual_chained (c : Connective) (members : List Expr) :
    (chained c members).dual = chained c.dual (members.map dual) := by
  cases members with
  | nil => rfl
  | cons first rest => exact dual_foldl c first rest

theorem dual_literal (polarity : Polarity) (a : Assignment) (name : String) :
    (literal polarity a name).dual = literal polarity.other a name := by
  unfold literal
  rw [Polarity.result_other]
  by_cases same : a.bit name = polarity.result
  · rw [if_pos same, if_neg (by simp [same]), dual]
  · rw [if_neg same, if_pos (Bool.eq_not_of_ne same), dual]

theorem dual_term (polarity : Polarity) (names : List String) (a : Assignment) :
    (term polarity names a).dual = term polarity.other names a := by
  rw [term, term, dual_chained, List.map_map, Polarity.inner_other]
  congr 1
  exact List.map_congr_left fun name _ => dual_literal polarity a name

end Expr

theorem listed_other (polarity : Polarity) (names : List String) (f : Assignment → Bool) :
    listed polarity.other names (fun a => !f a) = listed polarity names f := by
  apply List.filter_congr
  intro a _
  simp only [Polarity.result_other]
  cases f a <;> cases polarity.result <;> rfl

theorem dual_normalForm (polarity : Polarity) (names : List String) (f : Assignment → Bool) :
    (normalForm polarity names f).dual = normalForm polarity.other names fun a => !f a := by
  rw [normalForm, normalForm, Expr.dual_chained, List.map_map, Polarity.outer_other, listed_other]
  congr 1
  exact List.map_congr_left fun a _ => Expr.dual_term polarity names a

theorem rowsWith_map_not (wanted : Bool) (results : List Bool) :
    rowsWith (!wanted) (results.map Bool.not) = rowsWith wanted results := by
  induction results with
  | nil => rfl
  | cons bit rest ih =>
    rw [List.map_cons, rowsWith_cons, rowsWith_cons, ih]
    cases bit <;> cases wanted <;> rfl

namespace Expr

variable {e : Expr} {polarity : Polarity}

theorem dual_form_not (polarity : Polarity) (e : Expr) :
    ((not e).form polarity.other).dual = e.form polarity := by
  rw [Expr.form, dual_normalForm, Polarity.other_other, Expr.form]
  simp only [truth, Bool.not_not]
  rfl

theorem rows_not (polarity : Polarity) (e : Expr) :
    (not e).rows polarity.other = e.rows polarity := by
  rw [rows, rows, results_not, Polarity.result_other, rowsWith_map_not]

theorem never_not_iff :
    (∀ bits, (not e).truth bits ≠ polarity.other.result) ↔
      ∀ bits, e.truth bits ≠ polarity.result := by
  simp [truth]

end Expr

theorem forms_of_the_negation_are_dual {text : String} {parsed : Parsed}
    (accepted : parse text = .ok parsed) (few : parsed.names.length < 63)
    {bindings otherBindings : List (String × Value)}
    (valid : ∀ entry ∈ Entries.ofPairs bindings, entry.2.bit?.isSome)
    (otherValid : ∀ entry ∈ Entries.ofPairs otherBindings, entry.2.bit?.isSome)
    (namesOnly otherOnly : Bool) (asked otherAsked : List Query) :
    ∃ a b, Analysis.start text bindings namesOnly = .ok a ∧
      Analysis.start (negatedText text) otherBindings otherOnly = .ok b ∧
      ∀ polarity : Polarity, ∃ form dualForm rows,
        a.read asked (.chain polarity) = .ok (.text form) ∧
        b.read otherAsked (.chain polarity.other) = .ok (.text dualForm) ∧
        (form = "" ↔ dualForm = "") ∧
        (form ≠ "" → ∃ tree names, parse dualForm = .ok ⟨tree, names⟩ ∧
          parse form = .ok ⟨tree.dual, names⟩) ∧
        a.read asked (.displayRows polarity) = .ok (.text (rowsText polarity rows)) ∧
        b.read otherAsked (.displayRows polarity.other) =
          .ok (.text (rowsText polarity.other rows)) := by
  have tabular := tabular_of_parse accepted few
  have negation := tabular_of_parse (parse_negatedText accepted) few
  have formed := tabular.formed
  have named := tabular.named
  obtain ⟨bound, started⟩ := Analysis.exists_start accepted valid namesOnly
  obtain ⟨otherBound, otherStarted⟩ :=
    Analysis.exists_start (parse_negatedText accepted) otherValid otherOnly
  refine ⟨_, _, started, otherStarted, fun polarity => ?_⟩
  refine ⟨_, _, parsed.root.rows polarity, tabular.read_stage _ _ _ _ (by simp),
    negation.read_stage _ _ _ _ (by simp), ?_, fun some => ?_,
    tabular.read_stage _ _ _ _ (by simp), ?_⟩
  · rw [Expr.text_form_eq_empty_iff formed named,
      Expr.text_form_eq_empty_iff negation.formed negation.named, Expr.never_not_iff]
  · rw [ne_eq, Expr.text_form_eq_empty_iff formed named] at some
    have otherSome := Expr.never_not_iff.not.mpr some
    refine ⟨_, _, negation.formed.parse_form negation.named (not_forall_not.mp otherSome), ?_⟩
    rw [Expr.dual_form_not, Expr.sorted_not]
    exact formed.parse_form named (by simpa using some)
  · rw [← Expr.rows_not]
    exact negation.read_stage _ _ _ _ (by simp)

-- A formula with terms in both of its forms; a full table is made of the one, none of the other.
theorem forms_of_the_negation_are_dual_implication :
    let parsed : Parsed := ⟨.binary .implies (.atom "b") (.atom "a"), ["b", "a"]⟩
    let bindings : List (String × Value) := [("b", .bool true)]
    (parse "(b>a)" = .ok parsed ∧ parsed.names.length < 63 ∧
      (∀ entry ∈ Entries.ofPairs bindings, entry.2.bit?.isSome) ∧
      ∀ entry ∈ Entries.ofPairs ([] : List (String × Value)), entry.2.bit?.isSome) ∧
    ∃ a b, Analysis.start "(b>a)" bindings false = .ok a ∧
      Analysis.start (negatedText "(b>a)") [] true = .ok b ∧
      ∀ polarity : Polarity, ∃ form dualForm rows,
        a.read [.tabulate true] (.chain polarity) = .ok (.text form) ∧
        b.read [] (.chain polarity.other) = .ok (.text dualForm) ∧
        (form = "" ↔ dualForm = "") ∧
        (form ≠ "" → ∃ tree names, parse dualForm = .ok ⟨tree, names⟩ ∧
          parse form = .ok ⟨tree.dual, names⟩) ∧
        a.read [.tabulate true] (.displayRows polarity) = .ok (.text (rowsText polarity rows)) ∧
        b.read [] (.displayRows polarity.other) = .ok (.text (rowsText polarity.other rows)) := by
  intro parsed bindings
  have accepted : parse "(b>a)" = .ok parsed := by cbv
  have few : parsed.names.length < 63 := by decide
  have valid : ∀ entry ∈ Entries.ofPairs bindings, entry.2.bit?.isSome := by
    simp [bindings, Entries.ofPairs, Entries.set, Value.bit?]
  have otherValid : ∀ entry ∈ Entries.ofPairs ([] : List (String × Value)),
      entry.2.bit?.isSome := by
    simp
  exact ⟨⟨accepted, few, valid, otherValid⟩,
    forms_of_the_negation_are_dual accepted few valid otherValid false true [.tabulate true] []⟩

theorem conjunction_of_many_has_no_form_to_compare :
    parse wide.text = .ok ⟨wide, wideNames⟩ ∧
      ∃ a, Analysis.start wide.text [] false = .ok a ∧ ∀ (polarity : Polarity) answer,
        a.read [] (.chain polarity) ≠ .ok answer ∧
          a.read [] (.displayRows polarity) ≠ .ok answer := by
  obtain ⟨a, started, unread⟩ := Analysis.exists_start_wide
  exact ⟨parse_wide, a, started, fun _ _ => ⟨unread.unread _ _, unread.unread _ _⟩⟩

end TruthTables

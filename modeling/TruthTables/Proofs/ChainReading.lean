import TruthTables.Proofs.Refusals
import TruthTables.Proofs.Viability

namespace TruthTables

def Expr.HasValue (e : Expr) (assignment : Assignment) (value : TruthValue) : Prop :=
  ∀ namesOnly, ∃ evaluation, e.evaluate assignment namesOnly = .ok evaluation ∧
    evaluation.result = value

-- The formula has the value at the bindings: in an analysis that is made with them, and when one
-- that is made without any is evaluated there.
structure TextHasValue (text : String) (bindings : List (String × Value)) (value : TruthValue) :
    Prop where
  started : ∀ namesOnly, ∃ a, Analysis.start text bindings namesOnly = .ok a ∧ a.value = value
  evaluated : ∀ namesOnly, ∃ a, Analysis.start text [] namesOnly = .ok a ∧
    (Mentions bindings a.names → a.evaluate bindings = .ok value)

-- The chain of the texts, read as the expression that is folded from the left. Of a name that comes
-- again only the first place counts.
structure ReadsAsFold (c : Connective) (members : List Expr) : Prop where
  spelled : (Expr.chained c members).text? = .ok (chain c.symbol (members.map Expr.text))
  accepted : (∃ e ∈ members, e.names ≠ []) → parse (chain c.symbol (members.map Expr.text)) =
    .ok ⟨Expr.chained c members, (members.flatMap fun e => e.names.eraseDups).eraseDups⟩
  nameless : (∀ e ∈ members, e.names = []) →
    parse (chain c.symbol (members.map Expr.text)) = .error .noVariable

structure FoldHasValue (c : Connective) (members : List Expr) (bindings : List (String × Value))
    (assignment : Assignment) (value : TruthValue) : Prop where
  folded : (Expr.chained c members).HasValue assignment value
  formula : (∃ e ∈ members, e.names ≠ []) →
    TextHasValue (chain c.symbol (members.map Expr.text)) bindings value

section Values

variable {e : Expr} {text : String} {parsed : Parsed} {bindings : List (String × Value)}
  {assignment : Assignment}

theorem Expr.WellFormed.hasValue (formed : e.WellFormed) (bound : e.Bound assignment) :
    e.HasValue assignment (.ofBit (e.truth assignment.bit)) := fun namesOnly =>
  ⟨_, evaluate_eq assignment formed namesOnly, valueUnder_of_bound bound⟩

theorem textHasValue (accepted : parse text = .ok parsed)
    (made : Assignment.ofBindings bindings = .ok assignment)
    (bound : parsed.root.Bound assignment) :
    TextHasValue text bindings (.ofBit (parsed.root.truth assignment.bit)) where
  started namesOnly :=
    ⟨_, Analysis.start_eq accepted made namesOnly, valueUnder_of_bound bound⟩
  evaluated namesOnly := by
    have formed := parse_wellFormed accepted
    refine ⟨_, Analysis.start_eq accepted rfl namesOnly, fun mentions => ?_⟩
    have made : Assignment.ofEntries (Entries.ofPairs bindings) = .ok assignment := made
    have root : (Analysis.fresh text parsed.root [] namesOnly).root = parsed.root := rfl
    simp only [Analysis.evaluate, Analysis.mismatch?_eq_none mentions, made, root,
      evaluate_eq assignment formed, valueUnder_of_bound bound]

end Values

namespace Expr

variable {c : Connective} {members : List Expr} {assignment : Assignment}

theorem WellFormed.parse_nameless {e : Expr} (formed : e.WellFormed) (nameless : e.names = []) :
    parse e.text = .error .noVariable := by
  obtain ⟨d, sound, rfl, cut⟩ := formed.exists_derivation
  rw [← cut.solid] at cut
  rw [parse_of_cut cut, Parser.parseTokens_whole sound, nameless]
  rfl

theorem bound_chained (bound : ∀ e ∈ members, e.Bound assignment) :
    (chained c members).Bound assignment := by
  intro name member
  rw [names_chained] at member
  obtain ⟨e, present, within⟩ := List.mem_flatMap.mp member
  exact bound e present name within

end Expr

section Folds

variable {c : Connective} {members : List Expr} (some : members ≠ [])
  (formed : ∀ e ∈ members, e.WellFormed)
include some formed

theorem parse_chain (named : ∃ e ∈ members, e.names ≠ []) :
    parse (chain c.symbol (members.map Expr.text)) =
      .ok ⟨Expr.chained c members, (members.flatMap fun e => e.names.eraseDups).eraseDups⟩ := by
  have whole : (Expr.chained c members).WellFormed := Expr.wellFormed_chained some formed
  have names : (Expr.chained c members).names ≠ [] := by
    rw [Expr.names_chained]
    simpa using named
  rw [Expr.chain_eq, Expr.parse_text whole names, Expr.names_chained, eraseDups_flatMap_eraseDups]

theorem readsAsFold : ReadsAsFold c members where
  spelled := by
    rw [Expr.chain_eq]
    exact (Expr.wellFormed_chained some formed).text?
  accepted := parse_chain some formed
  nameless none := by
    rw [Expr.chain_eq]
    apply (Expr.wellFormed_chained some formed).parse_nameless
    rw [Expr.names_chained]
    simpa using none

theorem foldHasValue {bindings : List (String × Value)} {assignment : Assignment}
    (made : Assignment.ofBindings bindings = .ok assignment)
    (bound : ∀ e ∈ members, e.Bound assignment) :
    FoldHasValue c members bindings assignment
      (.ofBit ((Expr.chained c members).truth assignment.bit)) where
  folded := (Expr.wellFormed_chained some formed).hasValue (Expr.bound_chained bound)
  formula named := textHasValue (parse_chain some formed named) made (Expr.bound_chained bound)

end Folds

theorem chains_are_read_as_folds {members : List Expr} (some : members ≠ [])
    (formed : ∀ e ∈ members, e.WellFormed) :
    (∀ e ∈ members, e.text? = .ok e.text) ∧
    (∀ c : Connective, ReadsAsFold c members) ∧
    ∀ bindings assignment, Assignment.ofBindings bindings = .ok assignment →
      (∀ e ∈ members, e.Bound assignment) →
      (∀ e ∈ members, e.HasValue assignment (.ofBit (e.truth assignment.bit))) ∧
      FoldHasValue .and members bindings assignment
        (.ofBit (members.all (·.truth assignment.bit))) ∧
      FoldHasValue .or members bindings assignment
        (.ofBit (members.any (·.truth assignment.bit))) := by
  refine ⟨fun e member => (formed e member).text?, fun c => readsAsFold some formed,
    fun bindings assignment made bound => ⟨fun e member => ?_, ?_, ?_⟩⟩
  · exact (formed e member).hasValue (bound e member)
  · rw [← Expr.truth_chained_and assignment.bit some]
    exact foldHasValue some formed made bound
  · rw [← Expr.truth_chained_or assignment.bit some]
    exact foldHasValue some formed made bound

-- A constant among the members, a variable that comes again, and one that is given as a Boolean.
theorem chains_are_read_as_folds_constant :
    let members : List Expr :=
      [.binary .implies (.atom "b") (.atom "a"), .const 1, .not (.atom "b")]
    let bindings : List (String × Value) := [("a", .int 0), ("b", .bool true)]
    let assignment : Assignment := [("a", false), ("b", true)]
    (members ≠ [] ∧ (∀ e ∈ members, e.WellFormed) ∧
      Assignment.ofBindings bindings = .ok assignment ∧ (∀ e ∈ members, e.Bound assignment) ∧
      ∃ e ∈ members, e.names ≠ []) ∧
    parse "(((b>a)~1)~(¬b))" = .ok ⟨Expr.chained .equiv members, ["b", "a"]⟩ ∧
    TextHasValue "(((b>a)•1)•(¬b))" bindings (.known 0) ∧
    TextHasValue "(((b>a)+1)+(¬b))" bindings (.known 1) := by
  intro members bindings assignment
  have first : Word.IsName "a" := Word.isName_iff.mpr (by decide)
  have second : Word.IsName "b" := Word.isName_iff.mpr (by decide)
  have formed : ∀ e ∈ members, e.WellFormed := by
    simp [members, Expr.WellFormed.binary, Expr.WellFormed.atom, Expr.WellFormed.not,
      Expr.WellFormed.one, first, second]
  have made : Assignment.ofBindings bindings = .ok assignment := by rfl
  have bound : ∀ e ∈ members, e.Bound assignment := by decide
  have named : ∃ e ∈ members, e.names ≠ [] := ⟨_, List.mem_cons_self .., by decide⟩
  have some : members ≠ [] := by simp [members]
  obtain ⟨_, reads, values⟩ := chains_are_read_as_folds some formed
  obtain ⟨_, conjunction, disjunction⟩ := values bindings assignment made bound
  exact ⟨⟨some, formed, made, bound, named⟩, (reads .equiv).accepted named,
    conjunction.formula named, disjunction.formula named⟩

end TruthTables

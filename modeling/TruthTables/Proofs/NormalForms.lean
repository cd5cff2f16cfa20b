import TruthTables.Proofs.Assignments
import TruthTables.Proofs.Chains
import TruthTables.Proofs.Distinct
import TruthTables.Table.Display

namespace TruthTables

namespace Expr

def literal (polarity : Polarity) (a : Assignment) (name : String) : Expr :=
  if a.bit name = polarity.result then atom name else not (atom name)

def term (polarity : Polarity) (names : List String) (a : Assignment) : Expr :=
  chained polarity.inner (names.map (literal polarity a))

end Expr

def listed (polarity : Polarity) (names : List String) (f : Assignment → Bool) : List Assignment :=
  (Assignment.all names).filter fun a => f a == polarity.result

def normalForm (polarity : Polarity) (names : List String) (f : Assignment → Bool) : Expr :=
  .chained polarity.outer ((listed polarity names f).map (Expr.term polarity names))

section Forms

variable {polarity : Polarity} {names : List String} {f : Assignment → Bool} {a : Assignment}
  {bits : String → Bool} {members : List Expr}

@[simp] theorem mem_listed :
    a ∈ listed polarity names f ↔ a ∈ Assignment.all names ∧ f a = polarity.result := by
  simp [listed]

@[simp] theorem names_literal (name : String) : (Expr.literal polarity a name).names = [name] := by
  unfold Expr.literal
  split <;> rfl

@[simp] theorem names_term : (Expr.term polarity names a).names = names := by
  simp [Expr.term, List.flatMap_map]

@[simp] theorem names_normalForm :
    (normalForm polarity names f).names = (listed polarity names f).flatMap fun _ => names := by
  simp [normalForm, List.flatMap_map]

theorem eraseDups_names_normalForm (distinct : names.Nodup) (some : listed polarity names f ≠ []) :
    (normalForm polarity names f).names.eraseDups = names := by
  rw [names_normalForm, ← enlistAll_eq_eraseDups]
  cases rows : listed polarity names f with
  | nil => exact absurd rows some
  | cons first rest =>
    have once : enlistAll [] names = names := enlistAll_of_nodup distinct
    rw [List.flatMap_cons, enlistAll_append, once]
    apply enlistAll_of_subset
    intro name member
    obtain ⟨_, _, within⟩ := List.mem_flatMap.mp member
    exact within

theorem literal_wellFormed {name : String} (named : Word.IsName name) :
    (Expr.literal polarity a name).WellFormed := by
  unfold Expr.literal
  split
  · exact .atom named
  · exact .not (.atom named)

theorem term_wellFormed (some : names ≠ []) (named : ∀ name ∈ names, Word.IsName name) :
    (Expr.term polarity names a).WellFormed := by
  apply Expr.wellFormed_chained (by simpa using some)
  intro e member
  obtain ⟨name, within, rfl⟩ := List.mem_map.mp member
  exact literal_wellFormed (named name within)

theorem normalForm_wellFormed (some : names ≠ []) (named : ∀ name ∈ names, Word.IsName name)
    (rows : listed polarity names f ≠ []) : (normalForm polarity names f).WellFormed := by
  apply Expr.wellFormed_chained (by simpa using rows)
  intro e member
  obtain ⟨b, _, rfl⟩ := List.mem_map.mp member
  exact term_wellFormed some named

theorem not_eq_iff_eq_other {given held result : Bool} (other : held ≠ result) :
    (!given) = result ↔ given = held := by
  revert given held result
  decide

theorem eq_of_eq_iff {left right result : Bool} (same : left = result ↔ right = result) :
    left = right := by
  revert left right result
  decide

theorem truth_literal {name : String} :
    (Expr.literal polarity a name).truth bits = polarity.result ↔ bits name = a.bit name := by
  unfold Expr.literal
  by_cases same : a.bit name = polarity.result
  · rw [if_pos same, Expr.truth, same]
  · rw [if_neg same, Expr.truth, Expr.truth]
    exact not_eq_iff_eq_other same

-- The literals of a term have to agree all of them, the terms of a form only one.
theorem truth_inner (some : members ≠ []) :
    (Expr.chained polarity.inner members).truth bits = polarity.result ↔
      ∀ e ∈ members, e.truth bits = polarity.result := by
  cases polarity with
  | disjunctive =>
    simp only [Polarity.inner, Polarity.result, Expr.truth_chained_and bits some, List.all_eq_true]
  | conjunctive =>
    simp only [Polarity.inner, Polarity.result, Expr.truth_chained_or bits some,
      List.any_eq_false, Bool.not_eq_true]

theorem truth_outer (some : members ≠ []) :
    (Expr.chained polarity.outer members).truth bits = polarity.result ↔
      ∃ e ∈ members, e.truth bits = polarity.result := by
  cases polarity with
  | disjunctive =>
    simp only [Polarity.outer, Polarity.result, Expr.truth_chained_or bits some, List.any_eq_true]
  | conjunctive =>
    simp only [Polarity.outer, Polarity.result, Expr.truth_chained_and bits some,
      List.all_eq_false, Bool.not_eq_true]

theorem truth_term (some : names ≠ []) :
    (Expr.term polarity names a).truth bits = polarity.result ↔
      ∀ name ∈ names, bits name = a.bit name := by
  rw [Expr.term, truth_inner (by simpa using some)]
  simp [truth_literal]

theorem truth_normalForm (some : names ≠ []) (rows : listed polarity names f ≠ []) :
    (normalForm polarity names f).truth bits = polarity.result ↔
      ∃ a ∈ Assignment.all names, f a = polarity.result ∧
        ∀ name ∈ names, bits name = a.bit name := by
  rw [normalForm, truth_outer (by simpa using rows)]
  simp [truth_term some, and_assoc]

theorem truth_normalForm_eq {root : Expr} (distinct : names.Nodup) (some : names ≠ [])
    (within : ∀ name ∈ root.names, name ∈ names)
    (rows : listed polarity names (fun a => root.truth a.bit) ≠ []) :
    (normalForm polarity names fun a => root.truth a.bit).truth bits = root.truth bits := by
  refine eq_of_eq_iff ((truth_normalForm some rows).trans ⟨?_, ?_⟩)
  · intro given
    obtain ⟨a, _, value, agree⟩ := given
    rw [← value]
    exact Expr.truth_congr fun name member => agree name (within name member)
  · intro value
    obtain ⟨a, present, given⟩ := Assignment.exists_of_bits distinct bits
    have agree : ∀ name ∈ names, bits name = a.bit name := by
      intro name member
      simp [Assignment.bit, given name member]
    refine ⟨a, present, ?_, agree⟩
    rw [← value]
    exact (Expr.truth_congr fun name member => agree name (within name member)).symm

theorem listed_eq_nil_iff {root : Expr} (distinct : names.Nodup)
    (within : ∀ name ∈ root.names, name ∈ names) :
    listed polarity names (fun a => root.truth a.bit) = [] ↔
      ∀ bits, root.truth bits ≠ polarity.result := by
  constructor
  · intro none bits value
    obtain ⟨a, present, given⟩ := Assignment.exists_of_bits distinct bits
    have same : root.truth a.bit = root.truth bits :=
      Expr.truth_congr fun name member => by simp [Assignment.bit, given name (within name member)]
    have member : a ∈ listed polarity names (fun a => root.truth a.bit) :=
      mem_listed.mpr ⟨present, same.trans value⟩
    rw [none] at member
    cases member
  · intro never
    apply List.filter_eq_nil_iff.mpr
    intro a _
    simpa using never a.bit

end Forms

end TruthTables

import TruthTables.Analysis.Basic
import TruthTables.Proofs.Tabulation

namespace TruthTables

section Sorting

variable {names : List String} {name : String}

theorem mem_sortNames : name ∈ sortNames names ↔ name ∈ names := List.mem_mergeSort

theorem nodup_sortNames (distinct : names.Nodup) : (sortNames names).Nodup :=
  (List.mergeSort_perm names _).nodup_iff.mpr distinct

theorem pairwise_sortNames (names : List String) :
    (sortNames names).Pairwise fun a b => decide (a ≤ b) = true := by
  refine List.pairwise_mergeSort (fun a b c first second => ?_) (fun a b => ?_) names
  · exact decide_eq_true (String.le_trans (of_decide_eq_true first) (of_decide_eq_true second))
  · rw [Bool.or_eq_true, decide_eq_true_eq, decide_eq_true_eq]
    exact String.le_total a b

theorem strict_sortNames (distinct : names.Nodup) : (sortNames names).Pairwise (· < ·) := by
  refine ((pairwise_sortNames names).and (nodup_sortNames distinct)).imp fun {a b} both => ?_
  exact lt_of_le_of_ne (of_decide_eq_true both.1) both.2

theorem sortNames_sortNames (names : List String) :
    sortNames (sortNames names) = sortNames names :=
  List.mergeSort_of_pairwise (pairwise_sortNames names)

end Sorting

namespace Expr

def sorted (e : Expr) : List String := sortNames e.names.eraseDups

def table (e : Expr) : Table := tableFor e e.sorted (e.sorted.map atom)

variable {e other : Expr} {name : String}

@[simp] theorem mem_sorted : name ∈ e.sorted ↔ name ∈ e.names :=
  mem_sortNames.trans List.mem_eraseDups

theorem nodup_sorted (e : Expr) : e.sorted.Nodup := nodup_sortNames (nodup_eraseDups _)

theorem perm_sorted (e : Expr) : e.sorted.Perm e.names.eraseDups := List.mergeSort_perm _ _

theorem sorted_ne_nil (named : e.names ≠ []) : e.sorted ≠ [] := by
  obtain ⟨name, member⟩ := List.exists_mem_of_ne_nil _ named
  exact List.ne_nil_of_mem (mem_sorted.mpr member)

theorem WellFormed.layout (formed : e.WellFormed) (named : e.names ≠ []) :
    Layout e e.sorted (e.sorted.map .atom) where
  formed := formed
  distinct := e.nodup_sorted
  complete _ := mem_sorted
  nonempty := by simpa using sorted_ne_nil named
  once := e.nodup_sorted.map_on fun _ _ _ _ same => Expr.atom.inj same
  known p member := by
    obtain ⟨name, within, rfl⟩ := List.mem_map.mp member
    have entered : Expr.atom name ∈ e.entered false :=
      formed.atom_mem_entered_iff.mpr (mem_sorted.mp within)
    exact entered

-- What it takes for a formula to have a table: some variables, the assignments to which can be
-- counted.
structure Tabular (e : Expr) : Prop where
  formed : e.WellFormed
  named : e.names ≠ []
  few : e.sorted.length < 63

theorem table_congr (columns : e.sorted = other.sorted)
    (same : ∀ bits, e.truth bits = other.truth bits) : e.table = other.table := by
  have truths : (fun a : Assignment => e.truth a.bit) = fun a => other.truth a.bit :=
    funext fun a => same a.bit
  have results : resultCells e = resultCells other := by
    funext rows
    exact List.map_congr_left fun a _ => by rw [same]
  simp only [table, tableFor, columnsFor, columns, truths, results]

theorem WellFormed.result (formed : e.WellFormed) (named : e.names ≠ []) :
    e.table.result = .ok (resultCells e (Assignment.all e.sorted)) :=
  (formed.layout named).result

def form (polarity : Polarity) (e : Expr) : Expr :=
  normalForm polarity e.sorted fun a => e.truth a.bit

theorem form_congr (columns : e.sorted = other.sorted)
    (same : ∀ bits, e.truth bits = other.truth bits) (polarity : Polarity) :
    e.form polarity = other.form polarity := by
  have truths : (fun a : Assignment => e.truth a.bit) = fun a => other.truth a.bit :=
    funext fun a => same a.bit
  rw [form, form, columns, truths]

end Expr

section Parsed

variable {text : String} {parsed : Parsed} (accepted : parse text = .ok parsed)
include accepted

theorem length_sorted : parsed.root.sorted.length = parsed.names.length := by
  rw [(parsed_eq accepted).2]
  exact parsed.root.perm_sorted.length_eq

theorem length_names_eq {other : String} {second : Parsed}
    (otherAccepted : parse other = .ok second)
    (columns : parsed.root.sorted = second.root.sorted) :
    parsed.names.length = second.names.length := by
  rw [← length_sorted accepted, columns, length_sorted otherAccepted]

theorem tabular_of_parse (few : parsed.names.length < 63) : parsed.root.Tabular :=
  ⟨parse_wellFormed accepted, (parsed_eq accepted).1, by rwa [length_sorted accepted]⟩

end Parsed

namespace Analysis

variable {text : String} {parsed : Parsed} {e : Expr}

def fresh (text : String) (e : Expr) (bound : Assignment) (namesOnly : Bool) : Analysis where
  text := text
  namesOnly := namesOnly
  root := e
  names := e.names.eraseDups
  values := entriesOf bound (e.entered namesOnly).eraseDups
  value := e.valueUnder bound
  table := none

theorem start_eq (accepted : parse text = .ok parsed) {bindings : List (String × Value)}
    {bound : Assignment} (valid : Assignment.ofBindings bindings = .ok bound) (namesOnly : Bool) :
    start text bindings namesOnly = .ok (fresh text parsed.root bound namesOnly) := by
  have formed := parse_wellFormed accepted
  obtain ⟨_, names⟩ := parsed_eq accepted
  simp only [start, accepted, valid, evaluate_eq bound formed namesOnly, names]
  rfl

end Analysis

end TruthTables

import TruthTables.Proofs.Analyses
import TruthTables.Proofs.Columns
import TruthTables.Proofs.Conjunctions

namespace TruthTables

def Analysis.after (a : Analysis) (asked : List Query) : Analysis :=
  asked.foldl (fun a q => (a.ask q).2) a

-- Which table is kept after a query, by whether it was asked for in full. One that is asked for by
-- itself takes the place of any other; one that is only read off is made where there is none.
def Query.keeps (kept : Option Bool) : Query → Option Bool
  | .tabulate full => some full
  | .feature _ => some (kept.getD false)
  | .evaluate _ | .table | .rows | .size | .names | .values | .value | .text | .root | .written =>
    kept

namespace Expr

variable {e : Expr}

def shown (e : Expr) (namesOnly full : Bool) : List Expr :=
  if full then (e.entered namesOnly).eraseDups else e.sorted.map atom

def tableOf (e : Expr) (namesOnly full : Bool) : Table :=
  tableFor e e.sorted (e.shown namesOnly full)

theorem WellFormed.atom_mem_shown (formed : e.WellFormed) (namesOnly full : Bool) :
    ∀ name ∈ e.sorted, Expr.atom name ∈ e.shown namesOnly full := by
  intro name member
  cases full with
  | false => exact List.mem_map_of_mem member
  | true => exact List.mem_eraseDups.mpr (formed.atom_mem_entered_iff.mpr (mem_sorted.mp member))

theorem WellFormed.of_mem_shown_full (formed : e.WellFormed) {namesOnly : Bool} {p : Expr}
    (member : p ∈ e.shown namesOnly true) : p ∈ e.subexpressions := by
  have entered : p ∈ e.entered namesOnly := List.mem_eraseDups.mp member
  cases namesOnly with
  | false => exact entered
  | true =>
    obtain ⟨name, within, rfl⟩ := List.mem_map.mp entered
    have leaf : Expr.atom name ∈ e.entered false := formed.atom_mem_entered_iff.mpr within
    exact leaf

theorem WellFormed.layout_shown (formed : e.WellFormed) (named : e.names ≠ [])
    (namesOnly full : Bool) : Layout e e.sorted (e.shown namesOnly full) := by
  cases full with
  | false => exact formed.layout named
  | true =>
    obtain ⟨name, member⟩ := List.exists_mem_of_ne_nil _ (sorted_ne_nil named)
    exact {
      formed := formed
      distinct := e.nodup_sorted
      complete := fun _ => mem_sorted
      nonempty := List.ne_nil_of_mem (formed.atom_mem_shown namesOnly true name member)
      once := nodup_eraseDups _
      known := fun _ => formed.of_mem_shown_full }

theorem pairwise_sorted (e : Expr) : e.sorted.Pairwise (· < ·) :=
  strict_sortNames (nodup_eraseDups _)

theorem WellFormed.tabulates (formed : e.WellFormed) (named : e.names ≠ [])
    (namesOnly full : Bool) : (e.tableOf namesOnly full).Tabulates e e.names.eraseDups :=
  (formed.layout_shown named namesOnly full).tabulates (formed.atom_mem_shown namesOnly full)
    e.pairwise_sorted e.perm_sorted

end Expr

namespace Analysis

variable {text : String} {e : Expr} {bound : Assignment} {namesOnly : Bool}

def stage (text : String) (e : Expr) (bound : Assignment) (namesOnly : Bool)
    (kept : Option Bool) : Analysis :=
  { fresh text e bound namesOnly with
    names := if kept.isSome then e.sorted else e.names.eraseDups
    table := kept.map (e.tableOf namesOnly) }

theorem stage_none : stage text e bound namesOnly none = fresh text e bound namesOnly := rfl

@[simp] theorem sortNames_stage (kept : Option Bool) :
    sortNames (stage text e bound namesOnly kept).names = e.sorted := by
  cases kept with
  | none => rfl
  | some full => exact sortNames_sortNames _

@[simp] theorem keys_values (e : Expr) (bound : Assignment) (namesOnly : Bool) :
    (entriesOf bound (e.entered namesOnly).eraseDups).keys =
      (e.shown namesOnly true).map Expr.text := by
  simp [Entries.keys, entriesOf, Expr.shown]

@[simp] theorem keys_stage (kept : Option Bool) (full : Bool) :
    (stage text e bound namesOnly kept).keys full = (e.shown namesOnly full).map Expr.text := by
  cases full with
  | true => exact keys_values e bound namesOnly
  | false =>
    simp only [keys, sortNames_stage, Expr.shown]
    exact (Expr.map_text_atom e.sorted).symm

section Tabular

variable (tabular : e.Tabular)
include tabular

theorem tabulate_stage (kept : Option Bool) (full : Bool) :
    (stage text e bound namesOnly kept).tabulate full =
      (.ok (e.tableOf namesOnly full), stage text e bound namesOnly (some full)) := by
  have built := (tabular.formed.layout_shown tabular.named namesOnly full).build tabular.few
  simp only [tabulate, sortNames_stage, keys_stage]
  rw [show (stage text e bound namesOnly kept).root = e from rfl, built]
  rfl

theorem ensureTable_stage (kept : Option Bool) :
    (stage text e bound namesOnly kept).ensureTable =
      (.ok (e.tableOf namesOnly (kept.getD false)),
        stage text e bound namesOnly (some (kept.getD false))) := by
  cases kept with
  | none => exact tabulate_stage tabular none false
  | some full => rfl

theorem feature_stage (kept : Option Bool) (f : Feature) :
    (stage text e bound namesOnly kept).feature f =
      (((e.tableOf namesOnly (kept.getD false)).feature f).mapError .table,
        stage text e bound namesOnly (some (kept.getD false))) := by
  rw [feature, ensureTable_stage tabular]

theorem ensureTable_fresh (bound : Assignment) (namesOnly : Bool) :
    ((fresh text e bound namesOnly).ensureTable).1 = .ok e.table := by
  rw [← stage_none, ensureTable_stage tabular]
  rfl

theorem form_fresh (bound : Assignment) (namesOnly : Bool) (polarity : Polarity) :
    ((fresh text e bound namesOnly).feature (.chain polarity)).1 =
      .ok (.text (e.form polarity).text) := by
  rw [← stage_none, feature_stage tabular]
  cases polarity <;> rfl

theorem ask_stage (kept : Option Bool) (q : Query) :
    ((stage text e bound namesOnly kept).ask q).2 =
      stage text e bound namesOnly (q.keeps kept) := by
  cases q with
  | tabulate full => rw [ask, tabulate_stage tabular]; rfl
  | feature f => rw [ask, feature_stage tabular]; rfl
  | evaluate | table | rows | size | names | values | value | text | root | written => rfl

theorem after_stage (kept : Option Bool) (asked : List Query) :
    (stage text e bound namesOnly kept).after asked =
      stage text e bound namesOnly (asked.foldl Query.keeps kept) := by
  induction asked generalizing kept with
  | nil => rfl
  | cons q rest ih =>
    rw [after, List.foldl_cons, ask_stage tabular]
    exact ih (q.keeps kept)

theorem tabulate_after (kept : Option Bool) (asked : List Query) (full : Bool) :
    (((stage text e bound namesOnly kept).after asked).tabulate full).1 =
      .ok (e.tableOf namesOnly full) := by
  rw [after_stage tabular, tabulate_stage tabular]

end Tabular

-- What no use of an analysis changes: its expression, and its variables up to their order.
structure Of (a : Analysis) (e : Expr) : Prop where
  root : a.root = e
  names : a.names.Perm e.names.eraseDups

namespace Of

variable {a : Analysis}

theorem tabulate (known : a.Of e) (full : Bool) : (a.tabulate full).2.Of e := by
  have names : (sortNames a.names).Perm e.names.eraseDups :=
    (List.mergeSort_perm a.names _).trans known.names
  simp only [Analysis.tabulate]
  split <;> exact ⟨known.root, names⟩

theorem ensureTable (known : a.Of e) : a.ensureTable.2.Of e := by
  unfold Analysis.ensureTable
  split
  · exact known
  · exact known.tabulate false

theorem ask (known : a.Of e) (q : Query) : (a.ask q).2.Of e := by
  cases q with
  | tabulate full =>
    have same : (a.ask (.tabulate full)).2 = (a.tabulate full).2 := by
      simp only [Analysis.ask]
      split <;> simp_all
    rw [same]
    exact known.tabulate full
  | feature f =>
    have same : (a.ask (.feature f)).2 = a.ensureTable.2 := by
      simp only [Analysis.ask, Analysis.feature]
      split <;> simp_all
    rw [same]
    exact known.ensureTable
  | evaluate | table | rows | size | names | values | value | text | root | written => exact known

theorem after (known : a.Of e) (asked : List Query) : (a.after asked).Of e := by
  induction asked generalizing a with
  | nil => exact known
  | cons q rest ih => exact ih (known.ask q)

theorem fresh (text : String) (e : Expr) (bound : Assignment) (namesOnly : Bool) :
    (fresh text e bound namesOnly).Of e := ⟨rfl, .refl _⟩

end Of

section Many

variable {a : Analysis} (many : 63 ≤ a.names.length)
include many

theorem tabulate_of_many (full : Bool) :
    a.tabulate full =
      (.error (.count .beyondLength), { a with names := sortNames a.names }) := by
  have length : 63 ≤ (sortNames a.names).length := by rwa [sortNames, List.length_mergeSort]
  simp only [tabulate, Table.build_of_many length]

theorem feature_of_many (none : a.table = none) (f : Feature) :
    a.feature f =
      (.error (.build (.count .beyondLength)), { a with names := sortNames a.names }) := by
  simp only [feature, ensureTable, none, tabulate_of_many many]

end Many

structure Unread (a : Analysis) : Prop where
  known : a.Of wide
  names : a.names = wideNames
  many : 63 ≤ a.names.length
  table : a.table = none
  untabulated : ∀ full t, (a.tabulate full).1 ≠ .ok t
  unread : ∀ f answer, (a.feature f).1 ≠ .ok answer

theorem exists_start_wide : ∃ a, start wide.text [] false = .ok a ∧ a.Unread := by
  have names : (fresh wide.text wide [] false).names = wideNames := (parsed_eq parse_wide).2.symm
  have many : 63 ≤ (fresh wide.text wide [] false).names.length := by
    rw [names]
    decide
  refine ⟨_, start_eq parse_wide rfl false, .fresh .., names, many, rfl, fun full t => ?_,
    fun f answer => ?_⟩
  · rw [tabulate_of_many many]
    exact nofun
  · rw [feature_of_many many rfl]
    exact nofun

theorem exists_start {parsed : Parsed} (accepted : parse text = .ok parsed)
    {bindings : List (String × Value)}
    (valid : ∀ entry ∈ Entries.ofPairs bindings, entry.2.bit?.isSome) (namesOnly : Bool) :
    ∃ bound, start text bindings namesOnly = .ok (stage text parsed.root bound namesOnly none) := by
  obtain ⟨bound, made, _⟩ := Assignment.ofEntries_get? valid
  exact ⟨bound, start_eq accepted made namesOnly⟩

end Analysis

theorem Analysis.tabulate_after_of_many {text : String} {parsed : Parsed}
    (accepted : parse text = .ok parsed) (many : 63 ≤ parsed.names.length) (bound : Assignment)
    (namesOnly full : Bool) (asked : List Query) :
    (((stage text parsed.root bound namesOnly none).after asked).tabulate full).1 =
      .error (.count .beyondLength) := by
  have known := (Of.fresh text parsed.root bound namesOnly).after asked
  have still : 63 ≤ ((fresh text parsed.root bound namesOnly).after asked).names.length := by
    rwa [known.names.length_eq, ← (parsed_eq accepted).2]
  rw [stage_none, tabulate_of_many still]

theorem Analysis.tabulate_after_eq_ok_iff {text : String} {parsed : Parsed}
    (accepted : parse text = .ok parsed) (bound : Assignment) (namesOnly full : Bool)
    (asked : List Query) {t : Table} :
    (((stage text parsed.root bound namesOnly none).after asked).tabulate full).1 = .ok t ↔
      parsed.names.length < 63 ∧ t = parsed.root.tableOf namesOnly full := by
  by_cases few : parsed.names.length < 63
  · rw [tabulate_after (tabular_of_parse accepted few)]
    simp [few, eq_comm]
  · rw [tabulate_after_of_many accepted (Nat.not_lt.mp few)]
    simp [few]

theorem Analysis.exists_tabulate_after_iff {text : String} {parsed : Parsed}
    (accepted : parse text = .ok parsed) (bound : Assignment) (namesOnly full : Bool)
    (asked : List Query) :
    (∃ t, (((stage text parsed.root bound namesOnly none).after asked).tabulate full).1 = .ok t) ↔
      parsed.names.length < 63 := by
  simp only [tabulate_after_eq_ok_iff accepted, exists_and_left, exists_eq, and_true]

theorem every_table_is_the_truth_table {text : String} {parsed : Parsed}
    (accepted : parse text = .ok parsed) (few : parsed.names.length < 63)
    {bindings : List (String × Value)}
    (valid : ∀ entry ∈ Entries.ofPairs bindings, entry.2.bit?.isSome) (namesOnly full : Bool)
    (asked : List Query) :
    ∃ a t, Analysis.start text bindings namesOnly = .ok a ∧
      ((a.after asked).tabulate full).1 = .ok t ∧ t.Tabulates parsed.root parsed.names ∧
      (full = true → namesOnly = false →
        a.values.keys = parsed.root.subexpressions.eraseDups.map Expr.text ∧
        ∀ p ∈ parsed.root.subexpressions,
          t.column p.text = .ok ((p.column t.names).map bitCell)) := by
  have tabular := tabular_of_parse accepted few
  have formed := tabular.formed
  obtain ⟨named, names⟩ := parsed_eq accepted
  obtain ⟨bound, started⟩ := Analysis.exists_start accepted valid namesOnly
  refine ⟨_, _, started, Analysis.tabulate_after tabular none asked full, ?_, ?_⟩
  · rw [names]
    exact formed.tabulates named namesOnly full
  · rintro rfl rfl
    refine ⟨Analysis.keys_values parsed.root bound false, fun p member => ?_⟩
    have shown : p ∈ parsed.root.shown false true := List.mem_eraseDups.mpr member
    exact (formed.layout_shown named false true).column_shown shown

-- Variables not in their order, one of them bound at the start, and a table made before.
theorem every_table_is_the_truth_table_negation :
    let parsed : Parsed := ⟨.binary .implies (.atom "b") (.not (.atom "a")), ["b", "a"]⟩
    let bindings : List (String × Value) := [("b", .bool true)]
    (parse "(b>¬a)" = .ok parsed ∧ parsed.names.length < 63 ∧
        ∀ entry ∈ Entries.ofPairs bindings, entry.2.bit?.isSome) ∧
      ∃ a t, Analysis.start "(b>¬a)" bindings false = .ok a ∧
        ((a.after [.feature .index, .evaluate []]).tabulate true).1 = .ok t ∧
        t.Tabulates parsed.root parsed.names ∧
        a.values.keys = parsed.root.subexpressions.eraseDups.map Expr.text ∧
        ∀ p ∈ parsed.root.subexpressions,
          t.column p.text = .ok ((p.column t.names).map bitCell) := by
  intro parsed bindings
  have accepted : parse "(b>¬a)" = .ok parsed := by cbv
  have few : parsed.names.length < 63 := by decide
  have valid : ∀ entry ∈ Entries.ofPairs bindings, entry.2.bit?.isSome := by
    simp [bindings, Entries.ofPairs, Entries.set, Value.bit?]
  obtain ⟨a, t, started, made, tabulates, shown⟩ :=
    every_table_is_the_truth_table accepted few valid false true [.feature .index, .evaluate []]
  exact ⟨⟨accepted, few, valid⟩, a, t, started, made, tabulates, shown rfl rfl⟩

theorem conjunction_of_many_has_no_table :
    parse wide.text = .ok ⟨wide, wideNames⟩ ∧
      ∃ a, Analysis.start wide.text [] false = .ok a ∧ ∀ full t, (a.tabulate full).1 ≠ .ok t := by
  obtain ⟨a, started, unread⟩ := Analysis.exists_start_wide
  exact ⟨parse_wide, a, started, unread.untabulated⟩

end TruthTables

import TruthTables.Analysis.History
import TruthTables.Proofs.Features

namespace TruthTables

namespace Query

def full? : Query → Option Bool
  | tabulate full => some full
  | _ => none

def makesTable : Query → Bool
  | tabulate _ | feature _ => true
  | _ => false

theorem keeps_eq (kept : Option Bool) (q : Query) :
    q.keeps kept = q.full?.or (if q.makesTable then some (kept.getD false) else kept) := by
  cases q <;> rfl

-- The table that was asked for last stays; if none was, the first one that was needed.
theorem foldl_keeps (asked : List Query) :
    asked.foldl keeps none =
      (asked.filterMap full?).getLast?.or (if asked.any makesTable then some false else none) := by
  induction asked using List.reverseRecOn with
  | nil => rfl
  | append_singleton front q ih =>
    rw [List.foldl_append, List.foldl_cons, List.foldl_nil, ih, keeps_eq, List.filterMap_append,
      List.any_append]
    cases q with
    | tabulate full => simp [full?]
    | feature f =>
      have noTable : [feature f].filterMap full? = [] := rfl
      have needed : [feature f].any makesTable = true := rfl
      rw [noTable, needed, List.append_nil]
      cases (front.filterMap full?).getLast? <;> cases front.any makesTable <;> rfl
    | evaluate | table | rows | size | names | values | value | text | root | written =>
      simp [full?, makesTable]

theorem keeps_eq_none_iff {kept : Option Bool} {q : Query} :
    q.keeps kept = none ↔ kept = none ∧ q.makesTable = false := by
  cases q <;> simp [keeps, makesTable]

theorem foldl_keeps_eq_none_iff {asked : List Query} :
    asked.foldl keeps none = none ↔ ∀ q ∈ asked, q.makesTable = false := by
  induction asked using List.reverseRecOn with
  | nil => simp
  | append_singleton front q ih =>
    rw [List.foldl_append, List.foldl_cons, List.foldl_nil, keeps_eq_none_iff, ih]
    simp [or_imp, forall_and]

end Query

namespace Analysis

variable {text : String} {e : Expr} {bound : Assignment} {namesOnly : Bool} {kept : Option Bool}

theorem table_stage_eq_none_iff :
    (stage text e bound namesOnly kept).table = none ↔ kept = none := Option.map_eq_none_iff

theorem names_stage_of_none (none : (stage text e bound namesOnly kept).table = none) :
    (stage text e bound namesOnly kept).names = e.names.eraseDups := by
  rw [table_stage_eq_none_iff] at none
  rw [none]
  rfl

theorem names_stage_of_some (some : (stage text e bound namesOnly kept).table ≠ none) :
    (stage text e bound namesOnly kept).names = e.sorted := by
  rw [ne_eq, table_stage_eq_none_iff] at some
  obtain ⟨full, rfl⟩ := Option.ne_none_iff_exists'.mp some
  rfl

theorem of_stage : (stage text e bound namesOnly kept).Of e := by
  refine ⟨rfl, ?_⟩
  cases kept with
  | none => exact .refl _
  | some full => exact e.perm_sorted

end Analysis

namespace History

def after (h : History) (asked : List Query) : History :=
  asked.foldl (fun h q => (h.ask q).2) h

theorem analysis_ask (h : History) (q : Query) :
    (h.ask q).2.analysis = (h.analysis.ask q).2 := by
  unfold ask
  split
  · split <;> simp_all
  · simp_all

theorem answer_ask (h : History) (q : Query) : (h.ask q).1 = (h.analysis.ask q).1 := by
  unfold ask
  split
  · split <;> simp_all
  · simp_all

theorem handedOut_ask_of_none {q : Query} (other : q.full? = none) (h : History) :
    (h.ask q).2.handedOut = h.handedOut := by
  unfold ask
  split
  · split
    · cases other
    · rfl
  · rfl

theorem handedOut_prefix_ask (h : History) (q : Query) :
    h.handedOut <+: (h.ask q).2.handedOut := by
  unfold ask
  split
  · split
    · exact List.prefix_append _ _
    · exact List.prefix_refl _
  · exact List.prefix_refl _

theorem handedOut_prefix (h : History) (more : List Query) :
    h.handedOut <+: (h.after more).handedOut := by
  induction more generalizing h with
  | nil => exact List.prefix_refl _
  | cons q rest ih => exact (handedOut_prefix_ask h q).trans (ih (h.ask q).2)

section Stages

variable {text : String} {e : Expr} {bound : Assignment} {namesOnly : Bool}

def stage (text : String) (e : Expr) (bound : Assignment) (namesOnly : Bool)
    (kept : Option Bool) (handedOut : List Bool) : History :=
  ⟨.stage text e bound namesOnly kept, handedOut.map (e.tableOf namesOnly)⟩

variable (tabular : e.Tabular)
include tabular

theorem ask_tabulate (kept : Option Bool) (handedOut : List Bool) (full : Bool) :
    (stage text e bound namesOnly kept handedOut).ask (.tabulate full) =
      (.ok (.table (e.tableOf namesOnly full)),
        stage text e bound namesOnly (some full) (handedOut ++ [full])) := by
  simp [ask, stage, Analysis.ask, Analysis.tabulate_stage tabular]

theorem ask_stage (kept : Option Bool) (handedOut : List Bool) (q : Query) :
    ((stage text e bound namesOnly kept handedOut).ask q).2 =
      stage text e bound namesOnly (q.keeps kept) (handedOut ++ q.full?.toList) := by
  cases asked : q.full? with
  | none =>
    have state := analysis_ask (stage text e bound namesOnly kept handedOut) q
    have tables := handedOut_ask_of_none asked (stage text e bound namesOnly kept handedOut)
    rw [stage, Analysis.ask_stage tabular] at state
    rw [Option.toList_none, List.append_nil]
    exact congrArg₂ History.mk state tables
  | some full =>
    obtain rfl : q = .tabulate full := by cases q <;> cases asked; rfl
    rw [ask_tabulate tabular]
    rfl

theorem after_stage (kept : Option Bool) (handedOut : List Bool) (asked : List Query) :
    (stage text e bound namesOnly kept handedOut).after asked =
      stage text e bound namesOnly (asked.foldl Query.keeps kept)
        (handedOut ++ asked.filterMap Query.full?) := by
  induction asked generalizing kept handedOut with
  | nil => simp [after]
  | cons q rest ih =>
    have regrouped : handedOut ++ (q :: rest).filterMap Query.full? =
        (handedOut ++ q.full?.toList) ++ rest.filterMap Query.full? := by
      cases asked : q.full? <;> simp [asked]
    rw [after, List.foldl_cons, ask_stage tabular, List.foldl_cons, regrouped]
    exact ih (q.keeps kept) _

end Stages

-- How the use that was made of an analysis shows, and how it does not. Here `new` is a new analysis
-- of the same text and `first` the table that it makes when something is read off it.
structure Steady (parsed : Parsed) (started new : Analysis) (first : Table) (asked : List Query)
    (h : History) : Prop where
  answers : ∀ f, f ≠ .columns → ∃ answer,
    (h.ask (.feature f)).1 = .ok answer ∧ (new.ask (.feature f)).1 = .ok answer
  untouched : h.analysis.table = none ↔ ∀ q ∈ asked, q.makesTable = false
  kept : h.analysis.table =
    h.handedOut.getLast?.or (if asked.any Query.makesTable then some first else none)
  handed : ∀ full, ∃ t, (h.ask (.tabulate full)).1 = .ok (.table t) ∧
    (h.ask (.tabulate full)).2.handedOut = h.handedOut ++ [t]
  withheld : ∀ q, q.full? = none → (h.ask q).2.handedOut = h.handedOut
  stays : ∀ f t, h.analysis.table = some t → (h.ask (.feature f)).2.analysis.table = some t
  unmoved : ∀ bindings, (h.ask (.evaluate bindings)).2 = h
  unsorted : h.analysis.table = none → h.analysis.names = parsed.names
  sorted : h.analysis.table ≠ none → h.analysis.names.Pairwise (· < ·)
  same : h.analysis.names.Perm parsed.names
  values : h.analysis.values = started.values
  value : h.analysis.value = started.value
  lasting : ∀ more, h.handedOut <+: (h.after more).handedOut

-- The use of an analysis with too many variables for a table. It shows in the order of the names
-- and nowhere else.
structure Untabled (parsed : Parsed) (started : Analysis) (asked : List Query) (h : History) :
    Prop where
  answers : ∀ f, (h.ask (.feature f)).1 = .error (.build (.count .beyondLength))
  refused : ∀ full, (h.ask (.tabulate full)).1 = .error (.build (.count .beyondLength))
  table : h.analysis.table = none
  handedOut : h.handedOut = []
  unsorted : (∀ q ∈ asked, q.makesTable = false) → h.analysis.names = parsed.names
  sorted : (∃ q ∈ asked, q.makesTable) → h.analysis.names.Pairwise (· < ·)
  same : h.analysis.names.Perm parsed.names
  unmoved : ∀ bindings, (h.ask (.evaluate bindings)).2 = h
  values : h.analysis.values = started.values
  value : h.analysis.value = started.value

theorem getLast?_handedOut (e : Expr) (namesOnly : Bool) (asked : List Query) :
    (asked.foldl Query.keeps none).map (e.tableOf namesOnly) =
      ((asked.filterMap Query.full?).map (e.tableOf namesOnly)).getLast?.or
        (if asked.any Query.makesTable then some e.table else none) := by
  rw [Query.foldl_keeps, Option.map_or, List.getLast?_map]
  congr 1
  split <;> rfl

theorem steady_stage {text : String} {parsed : Parsed} (accepted : parse text = .ok parsed)
    (few : parsed.names.length < 63) (bound : Assignment) (namesOnly : Bool) (asked : List Query) :
    Steady parsed (.stage text parsed.root bound namesOnly none)
      (.stage text parsed.root [] false none) parsed.root.table asked
      (stage text parsed.root bound namesOnly (asked.foldl Query.keeps none)
        (asked.filterMap Query.full?)) := by
  have tabular := tabular_of_parse accepted few
  obtain ⟨_, names⟩ := parsed_eq accepted
  constructor
  case answers =>
    intro f other
    have fresh := tabular.feature_stage text [] false none other
    refine ⟨parsed.root.answer f, ?_, fresh⟩
    rw [answer_ask]
    exact tabular.feature_stage text bound namesOnly _ other
  case untouched => exact Analysis.table_stage_eq_none_iff.trans Query.foldl_keeps_eq_none_iff
  case kept => exact getLast?_handedOut parsed.root namesOnly asked
  case handed =>
    intro full
    refine ⟨parsed.root.tableOf namesOnly full, ?_, ?_⟩
    · rw [ask_tabulate tabular]
    · rw [ask_tabulate tabular, stage, stage, List.map_append]
      rfl
  case withheld => exact fun q other => handedOut_ask_of_none other _
  case stays =>
    intro f t found
    rw [ask_stage tabular]
    cases kept : asked.foldl Query.keeps none with
    | none => simp [stage, Analysis.stage, kept] at found
    | some full =>
      rw [kept] at found
      exact found
  case unmoved =>
    intro bindings
    have noTable : (Query.evaluate bindings).full? = none := rfl
    rw [ask_stage tabular, noTable, Option.toList_none, List.append_nil]
    rfl
  case unsorted =>
    rw [names]
    exact Analysis.names_stage_of_none
  case sorted =>
    intro some
    have order := Analysis.names_stage_of_some some
    rw [stage, order]
    exact parsed.root.pairwise_sorted
  case same =>
    rw [names]
    exact Analysis.of_stage.names
  case values => rfl
  case value => rfl
  case lasting => exact fun more => handedOut_prefix _ more

section Many

variable {a : Analysis}

theorem ask_start_of_many (many : 63 ≤ a.names.length) (none : a.table = none) (q : Query) :
    ((start a).ask q).2 =
      start { a with names := if q.makesTable then sortNames a.names else a.names } := by
  have state := analysis_ask (start a) q
  have tables : ((start a).ask q).2.handedOut = [] := by
    cases q with
    | tabulate full => simp [start, ask, Analysis.ask, Analysis.tabulate_of_many many]
    | _ => exact handedOut_ask_of_none rfl (start a)
  refine congrArg₂ History.mk (state.trans ?_) tables
  cases q with
  | tabulate full => simp [start, Analysis.ask, Analysis.tabulate_of_many many, Query.makesTable]
  | feature f =>
    simp [start, Analysis.ask, Analysis.feature_of_many many none, Query.makesTable]
  | _ => rfl

theorem after_start_of_many (many : 63 ≤ a.names.length) (none : a.table = none)
    (asked : List Query) :
    (start a).after asked =
      start { a with
        names := if asked.any Query.makesTable then sortNames a.names else a.names } := by
  induction asked generalizing a with
  | nil => rfl
  | cons q rest ih =>
    rw [after, List.foldl_cons, ask_start_of_many many none, ← after]
    cases needed : q.makesTable with
    | false => simpa [needed] using ih many none
    | true =>
      have still : 63 ≤ (sortNames a.names).length := by rwa [sortNames, List.length_mergeSort]
      have later := ih (a := { a with names := sortNames a.names }) still none
      simpa [needed, sortNames_sortNames] using later

theorem untabled_start {parsed : Parsed} {begun : Analysis} {asked : List Query}
    (many : 63 ≤ a.names.length) (none : a.table = none) (distinct : parsed.names.Nodup)
    (order : a.names =
      if asked.any Query.makesTable then sortNames parsed.names else parsed.names)
    (values : a.values = begun.values) (value : a.value = begun.value) :
    (start a).Untabled parsed begun asked where
  answers f := by rw [answer_ask, start, Analysis.ask, Analysis.feature_of_many many none]
  refused full := by simp only [answer_ask, start, Analysis.ask, Analysis.tabulate_of_many many]
  table := none
  handedOut := rfl
  unsorted spared := by
    rw [start, order, if_neg (by simpa using spared)]
  sorted needed := by
    rw [start, order, if_pos (by simpa using needed)]
    exact strict_sortNames distinct
  same := by
    rw [start, order]
    split
    · exact List.mergeSort_perm ..
    · exact .refl _
  unmoved bindings := ask_start_of_many many none (.evaluate bindings)
  values := values
  value := value

theorem untabled_after {parsed : Parsed} (names : a.names = parsed.names)
    (distinct : parsed.names.Nodup) (many : 63 ≤ parsed.names.length) (none : a.table = none)
    (asked : List Query) : ((start a).after asked).Untabled parsed a asked := by
  rw [after_start_of_many (names ▸ many) none, names]
  refine untabled_start ?_ none distinct rfl rfl rfl
  dsimp only
  split
  · rwa [sortNames, List.length_mergeSort]
  · exact many

end Many

end History

theorem answers_do_not_depend_on_use {text : String} {parsed : Parsed}
    (accepted : parse text = .ok parsed) {bindings : List (String × Value)}
    (valid : ∀ entry ∈ Entries.ofPairs bindings, entry.2.bit?.isSome) (namesOnly : Bool)
    (asked : List Query) :
    ∃ started new, Analysis.start text bindings namesOnly = .ok started ∧
      Analysis.start text [] false = .ok new ∧
      (parsed.names.length < 63 → ∃ first, (new.tabulate false).1 = .ok first ∧
        ((History.start started).after asked).Steady parsed started new first asked) ∧
      (63 ≤ parsed.names.length →
        ((History.start started).after asked).Untabled parsed started asked) := by
  obtain ⟨bound, started⟩ := Analysis.exists_start accepted valid namesOnly
  refine ⟨_, _, started, Analysis.start_eq accepted rfl false, fun few => ?_, fun many => ?_⟩
  · have tabular := tabular_of_parse accepted few
    refine ⟨parsed.root.table, ?_, ?_⟩
    · rw [← Analysis.stage_none, Analysis.tabulate_stage tabular]
      rfl
    · have begun : History.start (.stage text parsed.root bound namesOnly none) =
          .stage text parsed.root bound namesOnly none [] := rfl
      rw [begun, History.after_stage tabular, List.nil_append]
      exact History.steady_stage accepted few bound namesOnly asked
  · have names := (parsed_eq accepted).2
    exact History.untabled_after names.symm (names ▸ nodup_eraseDups _) many rfl asked

-- A full table is made, then a table is only read off, and an evaluation fails for want of a bit.
theorem answers_do_not_depend_on_use_failing :
    let parsed : Parsed := ⟨.binary .and (.atom "y") (.atom "x"), ["y", "x"]⟩
    let bindings : List (String × Value) := [("y", .bool false)]
    let asked : List Query := [.names, .tabulate true, .evaluate [("x", .null)], .feature .index]
    (parse "(y•x)" = .ok parsed ∧
        ∀ entry ∈ Entries.ofPairs bindings, entry.2.bit?.isSome) ∧
      ∃ started new first, Analysis.start "(y•x)" bindings true = .ok started ∧
        Analysis.start "(y•x)" [] false = .ok new ∧ (new.tabulate false).1 = .ok first ∧
        ((History.start started).after asked).Steady parsed started new first asked := by
  intro parsed bindings asked
  have accepted : parse "(y•x)" = .ok parsed := by cbv
  have valid : ∀ entry ∈ Entries.ofPairs bindings, entry.2.bit?.isSome := by
    simp [bindings, Entries.ofPairs, Entries.set, Value.bit?]
  obtain ⟨started, new, begun, renewed, steady, _⟩ :=
    answers_do_not_depend_on_use accepted valid true asked
  obtain ⟨first, made, steady⟩ := steady (by decide)
  exact ⟨⟨accepted, valid⟩, started, new, first, begun, renewed, made, steady⟩

-- The names are sorted before it is found that there are too many for a table.
theorem failed_use_of_conjunction_of_many_shows :
    parse wide.text = .ok ⟨wide, wideNames⟩ ∧
      ∃ a, Analysis.start wide.text [] false = .ok a ∧
        (a.after [.feature .index]).table = none ∧
        (a.after [.feature .index]).names ≠ wideNames ∧
        ∀ f answer, ((a.after [.feature .index]).feature f).1 ≠ .ok answer := by
  obtain ⟨a, started, unread⟩ := Analysis.exists_start_wide
  have state : a.after [.feature .index] = { a with names := sortNames a.names } := by
    simp only [Analysis.after, List.foldl_cons, List.foldl_nil, Analysis.ask,
      Analysis.feature_of_many unread.many unread.table]
  have table : (a.after [.feature .index]).table = none := by rw [state, unread.table]
  have sorted : (a.after [.feature .index]).names = sortNames wideNames := by
    rw [state, ← unread.names]
  have still : 63 ≤ (a.after [.feature .index]).names.length := by
    rw [state, sortNames, List.length_mergeSort]
    exact unread.many
  refine ⟨parse_wide, a, started, table, fun same => ?_, fun f answer given => ?_⟩
  · have order := pairwise_sortNames wideNames
    rw [← sorted, same] at order
    exact absurd order (by decide +kernel)
  · rw [Analysis.feature_of_many still table] at given
    cases given

end TruthTables

import TruthTables.Proofs.Origins
import TruthTables.Proofs.Reports
import TruthTables.Proofs.Runs

namespace TruthTables

def AtLevel (level : Int) (records : List Record) : Prop := ∀ r ∈ records, r.level = level

namespace AtLevel

variable {level : Int} {records front back : List Record} {r : Record}

theorem nil (level : Int) : AtLevel level [] := by simp [AtLevel]

theorem cons (first : r.level = level) (rest : AtLevel level records) :
    AtLevel level (r :: records) := by
  simpa [AtLevel] using ⟨first, rest⟩

theorem append (first : AtLevel level front) (second : AtLevel level back) :
    AtLevel level (front ++ back) := fun r member =>
  (List.mem_append.mp member).elim (first r) (second r)

theorem le_level (uniform : AtLevel level records) {least : Int} (reached : least ≤ level) :
    ∀ r ∈ records, least ≤ r.level := fun r member => by rwa [uniform r member]

theorem filter_of_le (uniform : AtLevel level records) {least : Int} (reached : least ≤ level) :
    records.filter (least ≤ ·.level) = records :=
  List.filter_eq_self.mpr fun r member => decide_eq_true (uniform.le_level reached r member)

theorem filter_of_lt (uniform : AtLevel level records) {least : Int} (below : level < least) :
    records.filter (least ≤ ·.level) = [] :=
  List.filter_eq_nil_iff.mpr fun r member => by simpa [uniform r member] using below

end AtLevel

namespace Narration

theorem debug_ofParse (text : String) : AtLevel Level.debug (ofParse text) := by
  have tokenized : AtLevel Level.debug (ofTokenize text) := by
    unfold ofTokenize
    split <;> exact .cons rfl (.nil _)
  unfold ofParse
  refine (AtLevel.cons rfl tokenized).append ?_
  split
  · exact .nil _
  · exact .cons rfl (.nil _)

theorem debug_ofStart (text : String) (bindings : List (String × Value)) :
    AtLevel Level.debug (ofStart text bindings) := by
  have bound : AtLevel Level.debug (ofBindings bindings) := by
    unfold ofBindings
    split
    · exact .nil _
    · exact .cons rfl (.nil _)
  unfold ofStart
  refine (debug_ofParse text).append ?_
  split
  · exact .nil _
  · exact bound

theorem debug_ofRows (root : Expr) (keys : List String) (rows : List Assignment) :
    AtLevel Level.debug (ofRows root keys rows) := by
  induction rows with
  | nil => exact .nil _
  | cons assignment rest ih =>
    unfold ofRows
    refine .cons rfl ?_
    split
    · exact .nil _
    · exact .cons rfl ih

theorem debug_ofBuild (root : Expr) (names keys : List String) :
    AtLevel Level.debug (ofBuild root names keys) := by
  have rows := debug_ofRows root (Table.chosenKeys names keys) (Assignment.all names)
  unfold ofBuild
  split
  · exact .nil _
  · refine AtLevel.append (.cons rfl rows) ?_
    split
    · exact .nil _
    · exact .cons rfl (.nil _)

theorem debug_ofTabulate (a : Analysis) (full : Bool) :
    AtLevel Level.debug (ofTabulate a full) := .cons rfl (debug_ofBuild _ _ _)

end Narration

namespace Report

variable {ε : Type} {x : Except ε String} {g : ε → ReportError} {label : String} {r : Record}

theorem info_header (formula : String) (titles : List String) :
    AtLevel Level.info (header formula titles) := .cons rfl (.cons rfl (.cons rfl (.nil _)))

theorem info_row {number : Int} {cells : List Value} (made : row number cells = .ok r) :
    r.level = Level.info := by
  unfold row at made
  split at made
  · cases made
  · cases shown : shownAll cells with
    | error error =>
      rw [shown] at made
      cases made
    | ok texts =>
      rw [shown] at made
      cases made
      rfl

theorem info_rowsFrom (columns : Entries (List Value)) (number count : Nat) :
    AtLevel Level.info (rowsFrom columns number count).records := by
  fun_induction rowsFrom columns number count with
  | case1 | case2 | case3 => exact .nil _
  | case4 _ _ _ _ _ made ih => exact .cons (info_row made) ih

theorem info_ofTable (formula : String) (t : Table) :
    AtLevel Level.info (ofTable formula t).records :=
  (info_header formula _).append (info_rowsFrom _ _ _)

theorem info_form (made : (x.map (form label)).mapError g = .ok r) : r.level = Level.info := by
  cases x with
  | error error => cases made
  | ok text =>
    cases made
    rfl

theorem info_ofIndex {t : Table} (made : ofIndex t = .ok r) : r.level = Level.info := by
  unfold ofIndex at made
  split at made
  · cases made
  · exact info_form made

theorem exists_of_bind {α β : Type} {x : Except ε α} {f : α → Except ε β} {b : β}
    (done : x >>= f = .ok b) : ∃ a, x = .ok a ∧ f a = .ok b := by
  cases x with
  | error error => cases done
  | ok a => exact ⟨a, rfl, done⟩

theorem info_counts {positive negative total : Int}
    (made : (counts positive negative total).mapError ReportError.numeral = .ok r) :
    r.level = Level.info := by
  cases written : counts positive negative total with
  | error error =>
    rw [written] at made
    cases made
  | ok record =>
    rw [written] at made
    cases made
    obtain ⟨_, _, written⟩ := exists_of_bind written
    obtain ⟨_, _, written⟩ := exists_of_bind written
    obtain ⟨_, _, written⟩ := exists_of_bind written
    cases written
    rfl

theorem info_ofSteps {steps : List (Except ReportError Record)}
    (each : ∀ step ∈ steps, ∀ r, step = .ok r → r.level = Level.info) :
    AtLevel Level.info (Telling.ofSteps steps).records := by
  fun_induction Telling.ofSteps steps with
  | case1 | case2 => exact .nil _
  | case3 record rest ih =>
    refine .cons (each _ (List.mem_cons_self ..) record rfl) (ih fun step member => ?_)
    exact each step (List.mem_cons_of_mem _ member)

theorem info_ofForms (t : Table) : AtLevel Level.info (ofForms t).records := by
  apply info_ofSteps
  have given (label text : String) : ∀ r, Except.ok (ε := ReportError) (form label text) = .ok r →
      r.level = Level.info := by
    rintro _ ⟨⟩
    rfl
  simp only [List.forall_mem_cons]
  exact ⟨given _ _, given _ _, fun _ => info_form, fun _ => info_form, fun _ => info_form,
    fun _ => info_form, fun _ => info_ofIndex, fun _ => info_counts, List.forall_mem_nil _⟩

theorem info_report (formula : String) (t : Table) (formsOnly : Bool) :
    AtLevel Level.info (CommandLine.report formula t formsOnly).records := by
  unfold CommandLine.report
  split
  · exact info_ofForms t
  · unfold Telling.andThen
    split
    · exact info_ofTable formula t
    · exact (info_ofTable formula t).append (info_ofForms t)

end Report

namespace CommandLine

section Courses

variable {formula : String} {parsed : Parsed} {error : FormulaError}

def Reached (records : List Record) : Prop := ∀ r ∈ records, Level.debug ≤ r.level

theorem reached_error {records : List Record} (reached : Reached records) (message : String) :
    Reached (records ++ [.error message]) := by
  refine List.forall_mem_append.mpr ⟨reached, ?_⟩
  simp [Record.error, Level.debug, Level.error]

theorem reached_courseOf (formula : String) (full formsOnly : Bool) :
    Reached (courseOf formula full formsOnly).records := by
  have opened : Reached (Narration.ofStart formula []) :=
    (Narration.debug_ofStart formula []).le_level le_rfl
  unfold courseOf
  split
  · exact reached_error opened _
  · exact reached_error opened _
  · rename_i a _
    have made : Reached (Narration.ofStart formula [] ++ Narration.ofTabulate a full) :=
      List.forall_mem_append.mpr ⟨opened, (Narration.debug_ofTabulate a full).le_level le_rfl⟩
    dsimp only
    split
    · exact reached_error made _
    · rename_i table _
      have told : Reached (report formula table formsOnly).records :=
        (Report.info_report formula table formsOnly).le_level (by decide)
      have both := List.forall_mem_append.mpr ⟨made, told⟩
      split
      · exact both
      · exact reached_error both _
      · exact reached_error both _

section Accepted

variable (accepted : parse formula = .ok parsed)
include accepted

theorem exists_start_fresh : ∃ bound, Analysis.start formula [] false =
    .ok (.stage formula parsed.root bound false none) := by
  have valid : ∀ entry ∈ Entries.ofPairs ([] : List (String × Value)), entry.2.bit?.isSome := by
    simp
  exact Analysis.exists_start accepted valid false

theorem code_courseOf_of_many (many : 63 ≤ parsed.names.length) (full formsOnly : Bool) :
    (courseOf formula full formsOnly).code = unexpectedCode := by
  obtain ⟨bound, started⟩ := exists_start_fresh accepted
  have names : 63 ≤ (Analysis.stage formula parsed.root bound false none).names.length := by
    rwa [(parsed_eq accepted).2] at many
  simp only [courseOf, started, Analysis.tabulate_of_many names]
  rfl

section Few

variable (few : parsed.names.length < 63)
include few

theorem code_courseOf_of_le (long : 10 ^ mostDigits ≤ parsed.root.index) (full formsOnly : Bool) :
    (courseOf formula full formsOnly).code = fileCode := by
  have tabular := tabular_of_parse accepted few
  obtain ⟨bound, started⟩ := exists_start_fresh accepted
  obtain ⟨error, stopped⟩ := tabular.report_stopped_of_le full formula long formsOnly
  simp only [courseOf, started, Analysis.tabulate_stage tabular, stopped]
  rfl

theorem courseOf_of_lt (short : parsed.root.index < 10 ^ mostDigits) (full : Bool) :
    ∃ narrated, AtLevel Level.debug narrated ∧ ∀ formsOnly,
      courseOf formula full formsOnly =
        ⟨narrated ++ ((if formsOnly then [] else parsed.root.tableRecords formula full) ++
          parsed.root.formRecords), 0⟩ := by
  have tabular := tabular_of_parse accepted few
  obtain ⟨bound, started⟩ := exists_start_fresh accepted
  refine ⟨_, (Narration.debug_ofStart formula []).append
    (Narration.debug_ofTabulate (.stage formula parsed.root bound false none) full),
    fun formsOnly => ?_⟩
  simp only [courseOf, started, Analysis.tabulate_stage tabular,
    tabular.report_of_lt full formula short formsOnly]

theorem exists_reported (short : parsed.root.index < 10 ^ mostDigits) (full : Bool) :
    ∃ a table rows, Analysis.start formula [] false = .ok a ∧ (a.tabulate full).1 = .ok table ∧
      Report.rowsFrom table.columns 0 table.total.toNat = ⟨rows, none⟩ ∧
      Report.ofForms table = ⟨parsed.root.formRecords, none⟩ ∧
      parsed.root.tableRecords formula full =
        Report.header formula table.columns.keys ++ rows := by
  have tabular := tabular_of_parse accepted few
  obtain ⟨bound, started⟩ := exists_start_fresh accepted
  have whole := (tabular.formed.layout_shown tabular.named false full).rowsFrom_whole
    tabular.few short
  exact ⟨_, parsed.root.tableOf false full, _, started,
    by rw [Analysis.tabulate_stage tabular], Telling.eq_of_stopped whole,
    tabular.ofForms_of_lt full short, rfl⟩

end Few

end Accepted

theorem courseOf_rejected (rejected : parse formula = .error error) (full formsOnly : Bool) :
    (courseOf formula full formsOnly).code = formulaCode := by
  have stopped : Analysis.start formula [] false = .error (.formula error) := by
    rw [Analysis.start, rejected]
  rw [courseOf, stopped]

theorem exists_code_courseOf (formula : String) :
    ∃ code, ∀ full formsOnly, (courseOf formula full formsOnly).code = code := by
  cases read : parse formula with
  | error reason => exact ⟨_, courseOf_rejected read⟩
  | ok parsed =>
    by_cases few : parsed.names.length < 63
    · by_cases short : parsed.root.index < 10 ^ mostDigits
      · refine ⟨0, fun full formsOnly => ?_⟩
        obtain ⟨_, _, course⟩ := courseOf_of_lt read few short full
        rw [course]
      · exact ⟨_, code_courseOf_of_le read few (Nat.not_lt.mp short)⟩
    · exact ⟨_, code_courseOf_of_many read (Nat.not_lt.mp few)⟩

end Courses

theorem exists_code (convention : Convention) (openFile : Path → Opened) (o : Origin) :
    ∃ code, ∀ full formsOnly quiet debug,
      (course convention openFile (o.options full formsOnly quiet debug)).code = code ∧
        Reached (course convention openFile (o.options full formsOnly quiet debug)).records := by
  have nothing : Reached [] := nofun
  rcases o.gives_or_fails convention openFile with ⟨rfl, rfl⟩ | ⟨formula, given⟩ | failing
  · exact ⟨unexpectedCode, fun _ _ _ _ => ⟨rfl, reached_error nothing _⟩⟩
  · obtain ⟨code, same⟩ := exists_code_courseOf formula
    refine ⟨code, fun full formsOnly _ _ => ?_⟩
    rw [given.course_eq]
    exact ⟨same full formsOnly, reached_courseOf formula full formsOnly⟩
  · obtain ⟨reason, course⟩ := failing.course_eq
    refine ⟨fileCode, fun full formsOnly quiet debug => ?_⟩
    rw [course]
    exact ⟨rfl, reached_error nothing _⟩

section Written

def kept (quiet debug : Bool) (records : List Record) : List Record :=
  if debug then records
  else if quiet then records.filter (Level.warning ≤ ·.level)
  else records.filter (Level.info ≤ ·.level)

theorem kept_eq {records : List Record} (all : ∀ r ∈ records, Level.debug ≤ r.level)
    (quiet debug : Bool) :
    records.filter ((Verbosity.mk (!quiet) debug).level ≤ ·.level) = kept quiet debug records := by
  cases debug with
  | true => exact List.filter_eq_self.mpr fun r member => decide_eq_true (all r member)
  | false => cases quiet <;> rfl

theorem kept_report {narrated reported : List Record} (narration : AtLevel Level.debug narrated)
    (report : AtLevel Level.info reported) :
    kept false false (narrated ++ reported) = reported := by
  have below := narration.filter_of_lt (show Level.debug < Level.info by decide)
  have reached := report.filter_of_le (le_refl Level.info)
  simp only [kept, Bool.false_eq_true, ↓reduceIte, List.filter_append, below, reached,
    List.nil_append]

end Written

theorem course_congr {convention : Convention} {openFile : Path → Opened} {options other : Options}
    (formula : options.formula = other.formula) (file : options.file = other.file)
    (full : options.full = other.full) (formsOnly : options.formsOnly = other.formsOnly) :
    course convention openFile options = course convention openFile other := by
  obtain ⟨_, _, _, _, _, _⟩ := options
  obtain ⟨_, _, _, _, _, _⟩ := other
  cases formula
  cases file
  cases full
  cases formsOnly
  rfl

namespace Origin

variable (o : Origin) (full formsOnly quiet debug : Bool)

@[simp] theorem quiet_options : (o.options full formsOnly quiet debug).quiet = quiet := by
  cases o <;> rfl

@[simp] theorem debug_options : (o.options full formsOnly quiet debug).debug = debug := by
  cases o <;> rfl

theorem course_quiet_debug (convention : Convention) (openFile : Path → Opened) :
    course convention openFile (o.options full formsOnly quiet debug) =
      course convention openFile (o.options full formsOnly false false) := by
  apply course_congr <;> cases o <;> rfl

end Origin

-- What holds of all runs on one origin, whatever the switches are and whatever the journal was used
-- for before.
structure Origin.Filtered (convention : Convention) (openFile : Path → Opened) (o : Origin)
    (code : Nat) : Prop where
  accepted : ∀ formula parsed, o.Gives convention openFile formula → parse formula = .ok parsed →
    parsed.names.length < 63 → parsed.root.index < 10 ^ mostDigits → code = 0
  unwritable : ∀ formula parsed, o.Gives convention openFile formula →
    parse formula = .ok parsed → parsed.names.length < 63 →
    10 ^ mostDigits ≤ parsed.root.index → code = 3
  untabulated : ∀ formula parsed, o.Gives convention openFile formula →
    parse formula = .ok parsed → 63 ≤ parsed.names.length → code = 5
  rejected : ∀ formula error, o.Gives convention openFile formula →
    parse formula = .error error → code = 2
  failed : o.Fails convention openFile → code = 3
  -- Where two dashes are no path, there is no file that could fail.
  unnamed : convention = .older → o = .file separator → code = 5
  possible : ∀ full formsOnly quiet debug, ∃ arguments,
    read convention arguments = .ok (.run (o.options full formsOnly quiet debug))
  logged : ∀ full formsOnly, ∃ records, ∀ quiet debug (j : Journal) arguments, j.Sound →
    read convention arguments = .ok (.run (o.options full formsOnly quiet debug)) →
      (run convention openFile j arguments).1 =
        ⟨.returned code, lines (kept quiet debug records)⟩
  -- The forms alone are what is left without the title, the formula, the header and the rows.
  shortened : ∀ formula parsed, o.Gives convention openFile formula → parse formula = .ok parsed →
    code = 0 → ∀ full, ∃ a table rows forms, Analysis.start formula [] false = .ok a ∧
      (a.tabulate full).1 = .ok table ∧
      Report.rowsFrom table.columns 0 table.total.toNat = ⟨rows, none⟩ ∧
      Report.ofForms table = ⟨forms, none⟩ ∧
      ∀ formsOnly (j : Journal) arguments, j.Sound →
        read convention arguments = .ok (.run (o.options full formsOnly false false)) →
          (run convention openFile j arguments).1.out =
            lines ((if formsOnly then []
              else Report.header formula table.columns.keys ++ rows) ++ forms)

section Filtering

variable {convention : Convention} {openFile : Path → Opened} {o : Origin} {formula : String}
  {parsed : Parsed} {full formsOnly quiet debug : Bool}

theorem short_of_code (accepted : parse formula = .ok parsed)
    (success : (courseOf formula full formsOnly).code = 0) :
    parsed.names.length < 63 ∧ parsed.root.index < 10 ^ mostDigits := by
  by_cases few : parsed.names.length < 63
  · refine ⟨few, Nat.not_le.mp fun long => ?_⟩
    rw [code_courseOf_of_le accepted few long] at success
    cases success
  · rw [code_courseOf_of_many accepted (Nat.not_lt.mp few)] at success
    cases success

theorem run_of_lt (given : o.Gives convention openFile formula)
    (accepted : parse formula = .ok parsed) (few : parsed.names.length < 63)
    (short : parsed.root.index < 10 ^ mostDigits) {j : Journal} (sound : j.Sound)
    {arguments : List String}
    (asked : read convention arguments = .ok (.run (o.options full formsOnly false false))) :
    (run convention openFile j arguments).1 = ⟨.returned 0,
      lines ((if formsOnly then [] else parsed.root.tableRecords formula full) ++
        parsed.root.formRecords)⟩ := by
  have reached := reached_courseOf formula full formsOnly
  have tabular := tabular_of_parse accepted few
  have reported := Report.info_report formula (parsed.root.tableOf false full) formsOnly
  rw [tabular.report_of_lt full formula short] at reported
  obtain ⟨narrated, narration, course⟩ := courseOf_of_lt accepted few short full
  rw [course] at reached
  rw [run_eq sound asked, o.quiet_options, o.debug_options, given.course_eq, course,
    kept_eq reached, kept_report narration reported]

end Filtering

theorem outcome_of_argument (convention : Convention) (openFile : Path → Opened)
    (formula : String) (full formsOnly quiet debug : Bool) :
    (run convention openFile .empty
      ((switches full formsOnly quiet debug).map switchName ++ [separator, formula])).1.outcome =
        .returned (courseOf formula full formsOnly).code := by
  have asked : read convention
      ((switches full formsOnly quiet debug).map switchName ++ [separator, formula]) =
        .ok (.run ((Origin.argument formula).options full formsOnly quiet debug)) :=
    read_options (.argument formula) full formsOnly quiet debug
  rw [run_eq Journal.sound_empty asked, (Origin.Gives.argument formula).course_eq]

-- Whatever is understood as a request to run has one origin, and of each origin the rest holds.
theorem switches_only_filter (convention : Convention) (openFile : Path → Opened) :
    (∀ arguments options, read convention arguments = .ok (.run options) → ∃ o : Origin,
      options = o.options options.full options.formsOnly options.quiet options.debug) ∧
    ∀ o : Origin, ∃ code, o.Filtered convention openFile code := by
  refine ⟨fun _ _ => exists_origin, fun o => ?_⟩
  obtain ⟨code, settled⟩ := exists_code convention openFile o
  have told {formula : String} (given : o.Gives convention openFile formula) (full : Bool) :
      (courseOf formula full false).code = code := by
    have course : course convention openFile (o.options full false false false) =
        courseOf formula full false := given.course_eq
    rw [← course]
    exact (settled full false false false).1
  refine ⟨code, ?accepted, ?unwritable, ?untabulated, ?rejected, ?failed, ?unnamed, ?possible,
    ?logged, ?shortened⟩
  case accepted =>
    intro formula parsed given accepted few short
    obtain ⟨_, _, course⟩ := courseOf_of_lt accepted few short false
    rw [← told given false, course]
  case unwritable =>
    intro formula parsed given accepted few long
    rw [← told given false, code_courseOf_of_le accepted few long]
    rfl
  case untabulated =>
    intro formula parsed given accepted many
    rw [← told given false, code_courseOf_of_many accepted many]
    rfl
  case rejected =>
    intro formula error given rejected
    rw [← told given false, courseOf_rejected rejected]
    rfl
  case failed =>
    intro failing
    obtain ⟨_, course⟩ := failing.course_eq
    rw [← (settled false false false false).1, course]
    rfl
  case unnamed =>
    rintro rfl rfl
    exact (settled false false false false).1.symm
  case possible =>
    intro full formsOnly quiet debug
    exact ⟨_, read_options o full formsOnly quiet debug⟩
  case logged =>
    intro full formsOnly
    refine ⟨(course convention openFile (o.options full formsOnly false false)).records, ?_⟩
    intro quiet debug j arguments sound asked
    obtain ⟨returned, reached⟩ := settled full formsOnly false false
    rw [run_eq sound asked, o.quiet_options, o.debug_options, o.course_quiet_debug, returned,
      kept_eq reached]
  case shortened =>
    intro formula parsed given accepted success full
    obtain ⟨few, short⟩ := short_of_code accepted ((told given full).trans success)
    obtain ⟨a, table, rows, started, made, numbered, below, above⟩ :=
      exists_reported accepted few short full
    refine ⟨a, table, rows, _, started, made, numbered, below, ?_⟩
    intro formsOnly j arguments sound asked
    rw [run_of_lt given accepted few short sound asked, above]

-- A formula with its table kept back, and a file that is not there.
theorem switches_only_filter_conjunction :
    let openFile : Path → Opened := fun _ => .missing
    let o : Origin := .argument "(x•y)"
    let arguments := ["(x•y)", "--quiet", "--full"]
    (∃ code, o.Filtered .newer openFile code ∧ code = 0 ∧
        read .newer arguments = .ok (.run (o.options true false true false)) ∧
        (run .newer openFile .empty arguments).1.outcome = .returned 0) ∧
      ∃ code, (Origin.file "formula.txt").Filtered .newer openFile code ∧ code = 3 := by
  intro openFile o arguments
  have accepted : parse "(x•y)" = .ok ⟨.binary .and (.atom "x") (.atom "y"), ["x", "y"]⟩ := by cbv
  have short := index_lt_of_parse accepted (by decide)
  have asked : read .newer arguments = .ok (.run (o.options true false true false)) := by cbv
  obtain ⟨_, filtered⟩ := switches_only_filter .newer openFile
  refine ⟨?_, ?_⟩
  · obtain ⟨code, filtered⟩ := filtered o
    have zero : code = 0 := filtered.accepted _ _ (.argument "(x•y)") accepted (by decide) short
    obtain ⟨records, written⟩ := filtered.logged true false
    have result := written true false .empty arguments Journal.sound_empty asked
    exact ⟨code, filtered, zero, asked, by rw [result, zero]⟩
  · obtain ⟨code, filtered⟩ := filtered (.file "formula.txt")
    exact ⟨code, filtered, filtered.failed (.file (Convention.takes_newer _) (.missing rfl))⟩

theorem conjunction_of_many_is_unexpected :
    let openFile : Path → Opened := fun _ => .missing
    parse wide.text = .ok ⟨wide, wideNames⟩ ∧
      (run .newer openFile .empty ["--quiet", separator, wide.text]).1.outcome =
        .returned unexpectedCode := by
  intro openFile
  have outcome := outcome_of_argument .newer openFile wide.text false false true false
  rw [code_courseOf_of_many parse_wide (by decide)] at outcome
  exact ⟨parse_wide, outcome⟩

end CommandLine

end TruthTables

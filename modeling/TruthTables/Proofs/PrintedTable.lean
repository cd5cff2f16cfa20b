import TruthTables.Proofs.Compounds
import TruthTables.Proofs.Verbosity

namespace TruthTables

theorem Expr.WellFormed.blank_not_mem_text {e : Expr} (formed : e.WellFormed) :
    ' ' ∉ e.text.toList := by
  obtain ⟨d, _, _, cut⟩ := formed.exists_derivation
  intro member
  exact absurd (Token.isBlank_eq_false_of_inAlphabet (cut.inAlphabet ' ' member)) (by decide)

section Columns

variable {root : Expr} {names : List String} {shown : List Expr} {title : String}
  {cells : List Value} (layout : Layout root names shown)
include layout

theorem Layout.blank_not_mem_title :
    ∀ title ∈ (tableFor root names shown).columns.keys, ' ' ∉ title.toList := by
  intro title member
  rw [layout.keys_columns] at member
  rcases List.mem_append.mp member with front | back
  · obtain ⟨p, present, rfl⟩ := List.mem_map.mp front
    have formed : p.WellFormed :=
      layout.formed.of_entered (show p ∈ root.entered false from layout.known p present)
    exact formed.blank_not_mem_text
  · rcases List.mem_cons.mp back with rfl | weight
    · decide
    · cases List.mem_singleton.mp weight
      decide

end Columns

namespace Report

-- A row as a record: its number, and its cells as decimal numbers under the titles.
def PrintsRow (columns : Entries (List Value)) (row : Nat) (r : Record) : Prop :=
  ∃ blanks text,
    r = .info (String.ofList (List.replicate blanks ' ') ++ toString row ++ ": " ++ text) ∧
    blanks + (toString row).length = max 3 (toString row).length ∧
    List.Forall₂ (fun piece column => ∃ value : Nat, piece = toString value ∧
        column.2[row]? = some (.int value))
      (Text.split " | " text) columns

structure Prints (t : Table) (arity : Nat) (header : String) (rows : List Record) :
    Prop where
  titles : Text.split " | " header = t.columns.keys
  once : t.columns.keys.Nodup
  last : ∃ keys, t.columns.keys = keys ++ ["result", "weight"]
  many : rows.length = 2 ^ arity
  row : ∀ (number : Nat) r, rows[number]? = some r → PrintsRow t.columns number r

def orNone (text : String) : String := if text = "" then "(none)" else text

def PrintsForms (t : Table) (records : List Record) : Prop :=
  ∃ (cdnf ccnf cdnfRows ccnfRows : String) (index positive negative total : Nat),
    t.display .disjunctive = .ok cdnf ∧ t.display .conjunctive = .ok ccnf ∧
    t.displayRows .disjunctive = .ok cdnfRows ∧ t.displayRows .conjunctive = .ok ccnfRows ∧
    t.index = .ok (.int index) ∧ t.positive = positive ∧ t.negative = negative ∧ t.total = total ∧
    records = [
      .info ("SDNF: " ++ orNone t.disjunctive),
      .info ("SKNF: " ++ orNone t.conjunctive),
      .info ("CDNF: " ++ orNone cdnf),
      .info ("CCNF: " ++ orNone ccnf),
      .info ("CDNF bin: " ++ cdnfRows),
      .info ("CCNF bin: " ++ ccnfRows),
      .info ("Binary index: " ++ toString index),
      .info ("Rows: " ++ toString total ++ " (true: " ++ toString positive ++ ", false: " ++
        toString negative ++ ")")]

theorem form_eq (label text : String) : form label text = .info (label ++ ": " ++ orNone text) := by
  by_cases empty : text = ""
  · rw [form, orNone, if_pos empty, if_pos (String.isEmpty_iff.mpr empty)]
  · rw [form, orNone, if_neg empty, if_neg (String.isEmpty_iff.not.mpr empty)]

theorem form_of_ne_empty {label text : String} (some : text ≠ "") :
    form label text = .info (label ++ ": " ++ text) := by
  rw [form_eq, orNone, if_neg some]

theorem rowsText_ne_empty (polarity : Polarity) (rows : List Nat) :
    rowsText polarity rows ≠ "" := by
  intro empty
  have chars := congrArg String.toList empty
  simp [rowsText] at chars

theorem rowNumber_eq {number : Nat} {label : String} (written : rowNumber number = .ok label) :
    ∃ blanks, label = String.ofList (List.replicate blanks ' ') ++ toString number ∧
      blanks + (toString number).length = max 3 (toString number).length := by
  cases digits : numeral number with
  | error error =>
    rw [rowNumber, digits] at written
    cases written
  | ok text =>
    obtain rfl : text = toString number := eq_of_numeral digits
    rw [rowNumber, digits] at written
    cases written
    exact ⟨3 - (toString number).length, rfl, by omega⟩

theorem forall₂_shownAll {cells : List Value} {texts : List String}
    (shown : shownAll cells = .ok texts) :
    List.Forall₂ (fun text cell => cell.shown = .ok text) texts cells := by
  induction cells generalizing texts with
  | nil =>
    cases shown
    exact .nil
  | cons cell rest ih =>
    rw [shownAll] at shown
    cases first : cell.shown with
    | error error =>
      rw [first] at shown
      cases shown
    | ok text =>
      cases later : shownAll rest with
      | error error =>
        rw [first, later] at shown
        cases shown
      | ok others =>
        rw [first, later] at shown
        cases shown
        exact .cons first (ih later)

theorem exists_of_row {number : Nat} {cells : List Value} {r : Record}
    (made : row number cells = .ok r) :
    ∃ label texts, rowNumber number = .ok label ∧ shownAll cells = .ok texts ∧
      r = .info (label ++ ": " ++ columnGap.intercalate texts) := by
  unfold row at made
  split at made
  · cases made
  · rename_i label written
    cases shown : shownAll cells with
    | error error =>
      rw [shown] at made
      cases made
    | ok texts =>
      rw [shown] at made
      cases made
      exact ⟨label, texts, written, rfl, rfl⟩

end Report

section Printing

variable {root : Expr} {names : List String} {shown : List Expr}
  (layout : Layout root names shown)
include layout

theorem Layout.split_titles :
    Text.split " | " (Report.columnGap.intercalate (tableFor root names shown).columns.keys) =
      (tableFor root names shown).columns.keys := by
  apply Text.split_intercalate (by decide)
  · simp [layout.keys_columns]
  · intro title member
    exact Text.clear_of_not_mem (layout.blank_not_mem_title title member)

theorem Layout.forall₂_texts {row : Nat} (small : row < 2 ^ names.length) {texts : List String}
    (told : Report.shownAll
      ((Table.across (tableFor root names shown).columns row).map (·.2)) = .ok texts) :
    List.Forall₂ (fun piece column => ∃ value : Nat, piece = toString value ∧
        column.2[row]? = some (.int value))
      texts (tableFor root names shown).columns := by
  have cells := Report.forall₂_shownAll told
  rw [Table.across, List.map_map, List.forall₂_map_right_iff, List.forall₂_iff_zip] at cells
  refine List.forall₂_iff_zip.mpr ⟨cells.1, fun {text column} member => ?_⟩
  obtain ⟨value, there, _⟩ := layout.natural_cell (List.of_mem_zip member).2 small
  have written := cells.2 member
  dsimp only [Function.comp_apply] at written
  rw [List.getD_eq_getElem?_getD, there] at written
  exact ⟨value, eq_of_numeral written, there⟩

theorem Layout.printsRow {row : Nat} (small : row < 2 ^ names.length) {r : Record}
    (made : Report.row row ((Table.across (tableFor root names shown).columns row).map (·.2)) =
      .ok r) :
    Report.PrintsRow (tableFor root names shown).columns row r := by
  obtain ⟨label, texts, written, told, rfl⟩ := Report.exists_of_row made
  obtain ⟨blanks, rfl, width⟩ := Report.rowNumber_eq written
  have pieces := layout.forall₂_texts small told
  have some : texts ≠ [] := by
    rintro rfl
    simpa [layout.columns_eq] using pieces.length_eq
  have digits : List.Forall₂ (fun piece _ => Text.Clear " | ".toList piece.toList ∧ True)
      texts (tableFor root names shown).columns := pieces.imp fun _ _ told => by
    obtain ⟨value, rfl, _⟩ := told
    exact ⟨Text.clear_toString rfl value, trivial⟩
  have clear := ((List.forall₂_and_left _ _).mp digits).1
  refine ⟨blanks, _, rfl, width, ?_⟩
  rwa [Report.columnGap, Text.split_intercalate (by decide) some clear]

theorem Layout.prints (few : names.length < 63)
    (short : binaryNumber (root.column names) < 10 ^ mostDigits) :
    Report.Prints (tableFor root names shown) names.length
      (Report.columnGap.intercalate (tableFor root names shown).columns.keys)
      (Report.rowsFrom (tableFor root names shown).columns 0 (2 ^ names.length)).records where
  titles := layout.split_titles
  once := layout.nodup_columns
  last := ⟨_, layout.keys_columns⟩
  many := Report.length_rowsFrom (layout.rowsFrom_whole few short)
  row number r found := by
    have within := (List.getElem?_eq_some_iff.mp found).1
    rw [Report.length_rowsFrom (layout.rowsFrom_whole few short)] at within
    obtain ⟨cells, read, made⟩ := Report.rowsFrom_getElem? found
    rw [Nat.zero_add] at read made
    rw [layout.rowAt_eq within] at read
    cases read
    exact layout.printsRow within made

end Printing

namespace Expr

variable {e : Expr} (tabular : e.Tabular) (short : e.index < 10 ^ mostDigits)
include tabular short

theorem Tabular.prints (formula : String) (full : Bool) :
    ∃ header rows, e.tableRecords formula full =
        .info "=== Truth Table ===" :: .info ("Formula: " ++ formula) :: .info header :: rows ∧
      Report.Prints (e.tableOf false full) e.sorted.length header rows :=
  ⟨_, _, rfl, (tabular.formed.layout_shown tabular.named false full).prints tabular.few short⟩

omit short in
theorem Tabular.printsForms : Report.PrintsForms (e.tableOf false false) e.formRecords := by
  have layout := tabular.formed.layout_shown tabular.named false false
  have atoms := tabular.formed.atom_mem_shown false false
  have numbers (polarity : Polarity) : (e.tableOf false false).displayRows polarity =
      .ok (rowsText polarity (e.rows polarity)) := by
    rw [Table.displayRows, tableOf, layout.matchingRows_eq]
    rfl
  refine ⟨_, _, _, _, _, _, _, _, layout.display_eq atoms .disjunctive,
    layout.display_eq atoms .conjunctive, numbers .disjunctive, numbers .conjunctive,
    layout.index_eq, tabular.formed.positive_tableOf tabular.named false false,
    tabular.formed.negative_tableOf tabular.named false false, rfl, ?_⟩
  have digits : toString e.index ≠ "" := Nat.repr_ne_empty
  simp only [formRecords, Report.form_eq "SDNF", Report.form_eq "SKNF", Report.form_eq "CDNF",
    Report.form_eq "CCNF", Report.form_of_ne_empty (Report.rowsText_ne_empty _ _),
    Report.form_of_ne_empty digits]
  rfl

end Expr

namespace CommandLine

theorem printed_table_is_the_table {convention : Convention} {openFile : Path → Opened} {o : Origin}
    {formula : String} {parsed : Parsed} (given : o.Gives convention openFile formula)
    (accepted : parse formula = .ok parsed) (few : parsed.names.length < 63)
    (short : parsed.root.index < 10 ^ mostDigits) (full : Bool) {j : Journal} (sound : j.Sound)
    {arguments : List String}
    (asked : read convention arguments = .ok (.run (o.options full false false false))) :
    ∃ a t byDefault header rows forms, Analysis.start formula [] false = .ok a ∧
      (a.tabulate full).1 = .ok t ∧ (a.tabulate false).1 = .ok byDefault ∧
      (run convention openFile j arguments).1 = ⟨.returned 0,
        lines (.info "=== Truth Table ===" :: .info ("Formula: " ++ formula) :: .info header ::
          (rows ++ forms))⟩ ∧
      Report.Prints t parsed.names.length header rows ∧
      Report.PrintsForms byDefault forms := by
  have tabular := tabular_of_parse accepted few
  obtain ⟨bound, started⟩ := exists_start_fresh accepted
  have written := run_of_lt given accepted few short sound asked
  obtain ⟨header, rows, records, prints⟩ := tabular.prints short formula full
  simp only [Bool.false_eq_true, ↓reduceIte, records] at written
  rw [length_sorted accepted] at prints
  exact ⟨_, _, _, header, rows, _, started, by rw [Analysis.tabulate_stage tabular],
    by rw [Analysis.tabulate_stage tabular], written, prints, tabular.printsForms⟩

theorem printed_table_is_the_table_implication :
    let openFile : Path → Opened := fun _ => .missing
    let o : Origin := .argument "(b>¬a)"
    let arguments := ["(b>¬a)", "--full"]
    let parsed : Parsed := ⟨.binary .implies (.atom "b") (.not (.atom "a")), ["b", "a"]⟩
    (o.Gives .newer openFile "(b>¬a)" ∧ parse "(b>¬a)" = .ok parsed ∧ parsed.names.length < 63 ∧
        parsed.root.index < 10 ^ mostDigits ∧ Journal.empty.Sound ∧
        read .newer arguments = .ok (.run (o.options true false false false))) ∧
      ∃ a t byDefault header rows forms, Analysis.start "(b>¬a)" [] false = .ok a ∧
        (a.tabulate true).1 = .ok t ∧ (a.tabulate false).1 = .ok byDefault ∧
        (run .newer openFile .empty arguments).1 = ⟨.returned 0,
          lines (.info "=== Truth Table ===" :: .info ("Formula: " ++ "(b>¬a)") ::
            .info header :: (rows ++ forms))⟩ ∧
        Report.Prints t 2 header rows ∧ Report.PrintsForms byDefault forms := by
  intro openFile o arguments parsed
  have given : o.Gives .newer openFile "(b>¬a)" := .argument "(b>¬a)"
  have accepted : parse "(b>¬a)" = .ok parsed := by cbv
  have few : parsed.names.length < 63 := by decide
  have short : parsed.root.index < 10 ^ mostDigits := index_lt_of_parse accepted (by decide)
  have asked : read .newer arguments = .ok (.run (o.options true false false false)) := by cbv
  exact ⟨⟨given, accepted, few, short, Journal.sound_empty, asked⟩,
    printed_table_is_the_table given accepted few short true Journal.sound_empty asked⟩

-- Two formulas that are accepted: of the one there is no table, of the other no row can be written.
theorem conjunction_of_many_is_not_printed :
    let openFile : Path → Opened := fun _ => .missing
    let names := wideNames.take 14
    let formula := negatedText (Expr.conjunction names).text
    (parse wide.text = .ok ⟨wide, wideNames⟩ ∧
      (run .newer openFile .empty [separator, wide.text]).1.outcome = .returned 5) ∧
    parse formula = .ok ⟨.not (.conjunction names), names⟩ ∧
      (run .newer openFile .empty [separator, formula]).1.outcome = .returned 3 := by
  intro openFile names formula
  have named : ∀ name ∈ names, Word.IsName name := fun name member =>
    isName_wideNames name (List.mem_of_mem_take member)
  have distinct : names.Nodup := nodup_wideNames.sublist (List.take_sublist ..)
  have accepted : parse formula = .ok ⟨.not (.conjunction names), names⟩ :=
    parse_negatedText (parse_conjunction (by decide) named distinct)
  have long : 10 ^ mostDigits ≤ (Expr.not (.conjunction names)).index := by
    apply Expr.le_index_of_first
    · rw [length_sorted accepted]
      decide
    · rw [Expr.truth, truth_conjunction _ (by decide)]
      decide
  have first := outcome_of_argument .newer openFile wide.text false false false false
  have second := outcome_of_argument .newer openFile formula false false false false
  rw [code_courseOf_of_many parse_wide (by decide)] at first
  rw [code_courseOf_of_le accepted (by decide) long] at second
  exact ⟨⟨parse_wide, first⟩, accepted, second⟩

end CommandLine

end TruthTables

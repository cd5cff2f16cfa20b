import TruthTables.CommandLine.Run
import TruthTables.Proofs.Features

namespace TruthTables

section Numerals

variable {number : Nat}

theorem length_toString_le_iff :
    (toString number).length ≤ mostDigits ↔ number < 10 ^ mostDigits :=
  Nat.length_repr_le_iff (by decide)

theorem numeral_of_lt (short : number < 10 ^ mostDigits) :
    numeral number = .ok (toString number) := by
  have fits := length_toString_le_iff.mpr short
  rw [numeral, Int.natAbs_natCast, if_neg (Nat.not_lt.mpr fits)]
  rfl

theorem numeral_of_le (long : 10 ^ mostDigits ≤ number) :
    numeral number = .error .tooLongToWrite := by
  have exceeds := Nat.not_le.mp (mt length_toString_le_iff.mp (Nat.not_lt.mpr long))
  rw [numeral, Int.natAbs_natCast, if_pos exceeds]

end Numerals

namespace Table

variable {columns : Entries (List Value)}

def across (columns : Entries (List Value)) (row : Nat) : Entries Value :=
  columns.map fun (title, cells) => (title, cells.getD row .null)

theorem rowAt_eq {row : Nat}
    (long : ∀ title cells, (title, cells) ∈ columns → row < cells.length) :
    rowAt columns row = .ok (across columns row) := by
  induction columns with
  | nil => rfl
  | cons entry rest ih =>
    obtain ⟨title, cells⟩ := entry
    have within : row < cells.length := long title cells (List.mem_cons_self ..)
    have later := ih fun other column member => long other column (List.mem_cons_of_mem _ member)
    simp [rowAt, across, within, later]

end Table

namespace Report

variable {columns : Entries (List Value)} {first count : Nat}

theorem rowsFrom_getElem? {place : Nat} {r : Record}
    (told : (rowsFrom columns first count).records[place]? = some r) :
    ∃ cells, Table.rowAt columns (first + place) = .ok cells ∧
      row (first + place : Nat) (cells.map (·.2)) = .ok r := by
  fun_induction rowsFrom columns first count generalizing place with
  | case1 | case2 | case3 => cases told
  | case4 number count cells read record made ih =>
    cases place with
    | zero =>
      cases told
      exact ⟨cells, read, made⟩
    | succ place =>
      have later := ih told
      rwa [Nat.add_right_comm] at later

theorem length_rowsFrom (whole : (rowsFrom columns first count).stopped = none) :
    (rowsFrom columns first count).records.length = count := by
  fun_induction rowsFrom columns first count with
  | case1 => rfl
  | case2 | case3 => cases whole
  | case4 _ _ _ _ _ _ ih => simp [Telling.cons, ih whole]

-- Where the columns are long enough, nothing but a numeral stops the rows.
theorem rowsFrom_stopped
    (long : ∀ title cells, (title, cells) ∈ columns → first + count ≤ cells.length) :
    (rowsFrom columns first count).stopped = none ∨
      ∃ error, (rowsFrom columns first count).stopped = some (.numeral error) := by
  fun_induction rowsFrom columns first count with
  | case1 => exact .inl rfl
  | case2 number count error failed =>
    rw [Table.rowAt_eq fun title cells member => by
      have := long title cells member; omega] at failed
    cases failed
  | case3 _ _ _ _ error => exact .inr ⟨error, rfl⟩
  | case4 _ _ _ _ _ _ ih =>
    exact ih fun title cells member => by have := long title cells member; omega

theorem rowsFrom_stopped_of_made
    (made : ∀ place < count, ∃ cells r, Table.rowAt columns (first + place) = .ok cells ∧
      row (first + place : Nat) (cells.map (·.2)) = .ok r) :
    (rowsFrom columns first count).stopped = none := by
  fun_induction rowsFrom columns first count with
  | case1 => rfl
  | case2 number count error failed =>
    obtain ⟨cells, r, read, _⟩ := made 0 (by omega)
    rw [Nat.add_zero, failed] at read
    cases read
  | case3 number count cells read error failed =>
    obtain ⟨others, r, again, written⟩ := made 0 (by omega)
    rw [Nat.add_zero, read] at again
    cases again
    rw [Nat.add_zero, failed] at written
    cases written
  | case4 number count cells read record _ ih =>
    refine ih fun place small => ?_
    have later := made (place + 1) (by omega)
    rwa [← Nat.add_assoc, Nat.add_right_comm] at later

theorem exists_shownAll {cells : List Value}
    (shown : ∀ cell ∈ cells, ∃ text, cell.shown = .ok text) :
    ∃ texts, shownAll cells = .ok texts := by
  induction cells with
  | nil => exact ⟨[], rfl⟩
  | cons cell rest ih =>
    obtain ⟨text, first⟩ := shown cell (List.mem_cons_self ..)
    obtain ⟨texts, later⟩ := ih fun other member => shown other (List.mem_cons_of_mem _ member)
    exact ⟨text :: texts, by simp only [shownAll, first, later, Except.map]⟩

theorem counts_of_lt {positive negative total : Nat} (front : positive < 10 ^ mostDigits)
    (back : negative < 10 ^ mostDigits) (all : total < 10 ^ mostDigits) :
    counts positive negative total = .ok (.info ("Rows: " ++ toString total ++ " (true: " ++
      toString positive ++ ", false: " ++ toString negative ++ ")")) := by
  rw [counts, numeral_of_lt all, numeral_of_lt front, numeral_of_lt back]
  rfl

end Report

theorem two_pow_lt_of_few {arity : Nat} (few : arity < 63) : 2 ^ arity < 10 ^ mostDigits := by
  calc 2 ^ arity ≤ 10 ^ arity := Nat.pow_le_pow_left (by decide) arity
    _ < 10 ^ mostDigits := Nat.pow_lt_pow_right (by decide) (few.trans (by decide))

theorem index_lt_of_parse {text : String} {parsed : Parsed} (accepted : parse text = .ok parsed)
    (few : parsed.names.length ≤ 13) : parsed.root.index < 10 ^ mostDigits := by
  have arity : parsed.root.sorted.length ≤ 13 := by rwa [length_sorted accepted]
  calc parsed.root.index
    _ < 2 ^ 2 ^ parsed.root.sorted.length := parsed.root.index_lt
    _ ≤ 2 ^ (3 * mostDigits) := Nat.pow_le_pow_right (by decide)
        ((Nat.pow_le_pow_right (by decide) arity).trans (by decide))
    _ = (2 ^ 3) ^ mostDigits := Nat.pow_mul ..
    _ ≤ 10 ^ mostDigits := Nat.pow_le_pow_left (by decide) mostDigits

-- With one variable more it is not, if the formula is true where nothing else is.
theorem Expr.le_index_of_first {e : Expr} (many : 14 ≤ e.sorted.length)
    (first : e.truth (fun _ => false) = true) : 10 ^ mostDigits ≤ e.index := by
  obtain ⟨rest, size⟩ := Nat.exists_eq_add_of_lt (Nat.two_pow_pos e.sorted.length)
  rw [Nat.zero_add] at size
  have bits : rowBits e.sorted 0 = fun _ => false := funext fun _ => Nat.zero_testBit _
  have rows : 2 ^ 14 ≤ rest + 1 := size ▸ Nat.pow_le_pow_right (by decide) many
  calc 10 ^ mostDigits
    _ ≤ 2 ^ (2 ^ 14 - 1) := by decide +kernel
    _ ≤ 2 ^ rest := Nat.pow_le_pow_right (by decide) (by omega)
    _ ≤ e.index := by
      rw [index, results, column, size, List.range_succ_eq_map, List.map_cons, bits, first,
        binaryNumber]
      simp

section Cells

variable {cell : Value}

theorem natural_bitCell (bit : Bool) : ∃ value : Nat, bitCell bit = .int value ∧ value ≤ 1 := by
  cases bit with
  | false => exact ⟨0, rfl, Nat.zero_le 1⟩
  | true => exact ⟨1, rfl, le_rfl⟩

theorem natural_bitWeights {bits : List Bool} (member : cell ∈ bitWeights bits) :
    ∃ value : Nat, cell = .int value ∧ value ≤ binaryNumber bits := by
  induction bits with
  | nil => cases member
  | cons bit rest ih =>
    rw [binaryNumber]
    rcases List.mem_cons.mp member with rfl | later
    · refine ⟨bit.toNat * 2 ^ rest.length, ?_, Nat.le_add_right ..⟩
      cases bit <;> simp [bitValue]
    · obtain ⟨value, same, small⟩ := ih later
      exact ⟨value, same, by omega⟩

end Cells

namespace Layout

variable {root : Expr} {names : List String} {shown : List Expr} {title : String}
  {cells : List Value} (layout : Layout root names shown)
include layout

theorem natural_of_mem (column : (title, cells) ∈ (tableFor root names shown).columns)
    {cell : Value} (member : cell ∈ cells) :
    ∃ value : Nat, cell = .int value ∧ value ≤ max 1 (binaryNumber (root.column names)) := by
  have natural {bit : Bool} : ∃ value : Nat, bitCell bit = .int value ∧
      value ≤ max 1 (binaryNumber (root.column names)) := by
    obtain ⟨value, same, small⟩ := natural_bitCell bit
    exact ⟨value, same, le_max_of_le_left small⟩
  rw [layout.columns_eq] at column
  rcases List.mem_append.mp column with front | back
  · obtain ⟨p, _, same⟩ := List.mem_map.mp front
    cases same
    obtain ⟨bit, _, rfl⟩ := List.mem_map.mp member
    exact natural
  · rcases List.mem_cons.mp back with result | weight
    · cases result
      obtain ⟨bit, _, rfl⟩ := List.mem_map.mp member
      exact natural
    · cases List.mem_singleton.mp weight
      obtain ⟨value, same, small⟩ := natural_bitWeights member
      exact ⟨value, same, le_max_of_le_right small⟩

theorem rowAt_eq {row : Nat} (small : row < 2 ^ names.length) :
    Table.rowAt (tableFor root names shown).columns row =
      .ok (Table.across (tableFor root names shown).columns row) :=
  Table.rowAt_eq fun title cells member => by rwa [layout.sized title cells member]

theorem natural_cell (column : (title, cells) ∈ (tableFor root names shown).columns)
    {row : Nat} (small : row < 2 ^ names.length) :
    ∃ value : Nat, cells[row]? = some (.int value) ∧
      value ≤ max 1 (binaryNumber (root.column names)) := by
  have within : row < cells.length := by rwa [layout.sized title cells column]
  obtain ⟨value, same, bound⟩ := layout.natural_of_mem column (List.getElem_mem within)
  exact ⟨value, by rw [List.getElem?_eq_getElem within, same], bound⟩

theorem rowsFrom_stopped :
    (Report.rowsFrom (tableFor root names shown).columns 0 (2 ^ names.length)).stopped = none ∨
      ∃ error, (Report.rowsFrom (tableFor root names shown).columns 0
        (2 ^ names.length)).stopped = some (.numeral error) :=
  Report.rowsFrom_stopped fun title cells member => by
    rw [layout.sized title cells member, Nat.zero_add]

variable (few : names.length < 63) (short : binaryNumber (root.column names) < 10 ^ mostDigits)
include few short

-- A weight that is too long would make the index too long.
theorem exists_row {row : Nat} (small : row < 2 ^ names.length) :
    ∃ r, Report.row row ((Table.across (tableFor root names shown).columns row).map (·.2)) =
      .ok r := by
  have one : 1 < 10 ^ mostDigits := Nat.one_lt_pow (by decide) (by decide)
  have label := numeral_of_lt (small.trans (two_pow_lt_of_few few))
  have written : ∀ cell ∈ (Table.across (tableFor root names shown).columns row).map (·.2),
      ∃ text, cell.shown = .ok text := by
    intro cell member
    obtain ⟨entry, present, rfl⟩ := List.mem_map.mp member
    obtain ⟨⟨title, cells⟩, column, rfl⟩ := List.mem_map.mp present
    obtain ⟨value, there, bound⟩ := layout.natural_cell column small
    refine ⟨toString value, ?_⟩
    dsimp only
    rw [List.getD_eq_getElem?_getD, there]
    exact numeral_of_lt (bound.trans_lt (max_lt one short))
  obtain ⟨texts, shown⟩ := Report.exists_shownAll written
  simp only [Report.row, Report.rowNumber, label, shown, Except.map]
  exact ⟨_, rfl⟩

theorem rowsFrom_whole :
    (Report.rowsFrom (tableFor root names shown).columns 0 (2 ^ names.length)).stopped = none := by
  apply Report.rowsFrom_stopped_of_made
  intro row small
  rw [Nat.zero_add]
  obtain ⟨r, made⟩ := layout.exists_row few short small
  exact ⟨_, r, layout.rowAt_eq small, made⟩

end Layout

namespace Expr

def tableRecords (formula : String) (e : Expr) (full : Bool) : List Record :=
  (Report.ofTable formula (e.tableOf false full)).records

def formRecords (e : Expr) : List Record := [
  Report.form "SDNF" (e.form .disjunctive).text,
  Report.form "SKNF" (e.form .conjunctive).text,
  Report.form "CDNF" (e.displayed .disjunctive),
  Report.form "CCNF" (e.displayed .conjunctive),
  Report.form "CDNF bin" (rowsText .disjunctive (e.rows .disjunctive)),
  Report.form "CCNF bin" (rowsText .conjunctive (e.rows .conjunctive)),
  Report.form "Binary index" (toString e.index),
  .info ("Rows: " ++ toString (2 ^ e.sorted.length) ++ " (true: " ++
    toString (e.results.count true) ++ ", false: " ++ toString (e.results.count false) ++ ")")]

variable {e : Expr} (tabular : e.Tabular) (full : Bool)
include tabular

theorem Tabular.ofForms_eq_ofSteps :
    Report.ofForms (e.tableOf false full) = .ofSteps [
      .ok (Report.form "SDNF" (e.form .disjunctive).text),
      .ok (Report.form "SKNF" (e.form .conjunctive).text),
      .ok (Report.form "CDNF" (e.displayed .disjunctive)),
      .ok (Report.form "CCNF" (e.displayed .conjunctive)),
      .ok (Report.form "CDNF bin" (rowsText .disjunctive (e.rows .disjunctive))),
      .ok (Report.form "CCNF bin" (rowsText .conjunctive (e.rows .conjunctive))),
      ((numeral e.index).map (Report.form "Binary index")).mapError .numeral,
      (Report.counts (e.results.count true) (e.results.count false)
        (2 ^ e.sorted.length : Nat)).mapError .numeral] := by
  have layout := tabular.formed.layout_shown tabular.named false full
  have atoms := tabular.formed.atom_mem_shown false full
  have positive := tabular.formed.positive_tableOf tabular.named false full
  have negative := tabular.formed.negative_tableOf tabular.named false full
  have total : (e.tableOf false full).total = (2 ^ e.sorted.length : Nat) := rfl
  have displays : ∀ polarity,
      (e.tableOf false full).display polarity = .ok (e.displayed polarity) :=
    layout.display_eq atoms
  have numbers : ∀ polarity, (e.tableOf false full).displayRows polarity =
      .ok (rowsText polarity (e.rows polarity)) := fun polarity => by
    rw [Table.displayRows, tableOf, layout.matchingRows_eq]
    rfl
  have index : (e.tableOf false full).index = .ok (.int e.index) := layout.index_eq
  simp only [Report.ofForms, Report.ofIndex, displays, numbers, index, positive, negative, total]
  rfl

theorem Tabular.ofForms_of_lt (short : e.index < 10 ^ mostDigits) :
    Report.ofForms (e.tableOf false full) = ⟨e.formRecords, none⟩ := by
  have rows := two_pow_lt_of_few tabular.few
  have within (bit : Bool) : e.results.count bit < 10 ^ mostDigits := by
    refine lt_of_le_of_lt List.count_le_length ?_
    rwa [results, length_column]
  rw [tabular.ofForms_eq_ofSteps, numeral_of_lt short,
    Report.counts_of_lt (within true) (within false) rows]
  rfl

theorem Tabular.ofForms_of_le (long : 10 ^ mostDigits ≤ e.index) :
    (Report.ofForms (e.tableOf false full)).stopped = some (.numeral .tooLongToWrite) := by
  rw [tabular.ofForms_eq_ofSteps, numeral_of_le long]
  rfl

variable (formula : String)

theorem Tabular.ofTable_stopped :
    (Report.ofTable formula (e.tableOf false full)).stopped = none ∨
      ∃ error, (Report.ofTable formula (e.tableOf false full)).stopped = some (.numeral error) :=
  (tabular.formed.layout_shown tabular.named false full).rowsFrom_stopped

theorem Tabular.ofTable_whole (short : e.index < 10 ^ mostDigits) :
    (Report.ofTable formula (e.tableOf false full)).stopped = none :=
  (tabular.formed.layout_shown tabular.named false full).rowsFrom_whole tabular.few short

theorem Tabular.report_stopped_of_le (long : 10 ^ mostDigits ≤ e.index) (formsOnly : Bool) :
    ∃ error, (CommandLine.report formula (e.tableOf false full) formsOnly).stopped =
      some (.numeral error) := by
  have forms := tabular.ofForms_of_le full long
  cases formsOnly with
  | true => exact ⟨_, forms⟩
  | false =>
    simp only [CommandLine.report, Telling.andThen, Bool.false_eq_true, ↓reduceIte]
    rcases tabular.ofTable_stopped full formula with none | ⟨error, some⟩
    · rw [none]
      exact ⟨_, forms⟩
    · rw [some]
      exact ⟨error, some⟩

theorem Tabular.report_of_lt (short : e.index < 10 ^ mostDigits) (formsOnly : Bool) :
    CommandLine.report formula (e.tableOf false full) formsOnly =
      ⟨(if formsOnly then [] else e.tableRecords formula full) ++ e.formRecords, none⟩ := by
  have forms := tabular.ofForms_of_lt full short
  cases formsOnly with
  | true => exact forms
  | false =>
    simp only [CommandLine.report, Telling.andThen, tabular.ofTable_whole full formula short, forms,
      Bool.false_eq_true, ↓reduceIte]
    rfl

end Expr

end TruthTables

import TruthTables.Proofs.Stages

namespace TruthTables

def rowsWith (wanted : Bool) (results : List Bool) : List Nat :=
  (List.range results.length).filter fun row => results[row]? == some wanted

def binaryNumber : List Bool → Nat
  | [] => 0
  | bit :: rest => bit.toNat * 2 ^ rest.length + binaryNumber rest

def Polarity.innerGap : Polarity → String
  | disjunctive => " • "
  | conjunctive => " + "

def Polarity.outerGap : Polarity → String
  | disjunctive => "  +  "
  | conjunctive => "  •  "

def literalText (polarity : Polarity) (bits : String → Bool) (name : String) : String :=
  if bits name = polarity.result then name else negationSymbol ++ name

def termText (polarity : Polarity) (names : List String) (row : Nat) : String :=
  polarity.innerGap.intercalate (names.map (literalText polarity (rowBits names row)))

def formText (polarity : Polarity) (names : List String) (rows : List Nat) : String :=
  polarity.outerGap.intercalate (rows.map (termText polarity names))

def rowsText (polarity : Polarity) (rows : List Nat) : String :=
  polarity.sign ++ "(" ++ ",".intercalate (rows.map toString) ++ ")"

theorem innerGap_eq (polarity : Polarity) :
    " " ++ polarity.inner.symbol ++ " " = polarity.innerGap := by
  cases polarity <;> decide

theorem outerGap_eq (polarity : Polarity) :
    "  " ++ polarity.outer.symbol ++ "  " = polarity.outerGap := by
  cases polarity <;> decide

theorem rowsWith_cons (wanted bit : Bool) (rest : List Bool) :
    rowsWith wanted (bit :: rest) =
      (if bit = wanted then [0] else []) ++ (rowsWith wanted rest).map (· + 1) := by
  have later : (List.range rest.length).filter
      ((fun row => (bit :: rest)[row]? == some wanted) ∘ Nat.succ) =
        rowsWith wanted rest := by
    simp [rowsWith, Function.comp_def]
  rw [rowsWith, List.length_cons, List.range_succ_eq_map, List.filter_cons, List.filter_map, later]
  by_cases same : bit = wanted <;> simp [same]

@[simp] theorem mem_rowsWith {wanted : Bool} {results : List Bool} {row : Nat} :
    row ∈ rowsWith wanted results ↔ results[row]? = some wanted := by
  simp only [rowsWith, List.mem_filter, List.mem_range, beq_iff_eq, and_iff_right_iff_imp]
  intro found
  exact (List.getElem?_eq_some_iff.mp found).1

@[simp] theorem isTrue_bitCell (bit : Bool) : (bitCell bit).isTrue = bit := by
  cases bit <;> rfl

theorem matching_eq (wanted : Bool) (start : Nat) (cells : List Value) :
    Table.matching wanted start cells =
      (rowsWith wanted (cells.map Value.isTrue)).map (start + ·) := by
  induction cells generalizing start with
  | nil => rfl
  | cons value rest ih =>
    have later : (rowsWith wanted (rest.map Value.isTrue)).map (start + 1 + ·) =
        ((rowsWith wanted (rest.map Value.isTrue)).map (· + 1)).map (start + ·) := by
      rw [List.map_map]
      exact List.map_congr_left fun row _ => by simp only [Function.comp_apply]; omega
    rw [Table.matching, ih, List.map_cons, rowsWith_cons, later]
    by_cases same : value.isTrue = wanted <;> simp [same]

-- Whatever the cells of the results are, the rows are listed by which of them count as true.
theorem Table.matchingRows_eq {t : Table} {cells : List Value} (found : t.result = .ok cells)
    (polarity : Polarity) :
    t.matchingRows polarity = .ok (rowsWith polarity.result (cells.map Value.isTrue)) := by
  rw [matchingRows, found, Except.map, matching_eq]
  simp

theorem binaryNumber_lt (bits : List Bool) : binaryNumber bits < 2 ^ bits.length := by
  induction bits with
  | nil => simp [binaryNumber]
  | cons bit rest ih =>
    rw [binaryNumber, List.length_cons, Nat.pow_succ]
    cases bit <;> simp <;> omega

theorem addAll_bitWeights (total : Int) (bits : List Bool) :
    (Value.int total).addAll (bitWeights bits) = .ok (.int (total + binaryNumber bits)) := by
  induction bits generalizing total with
  | nil => simp [bitWeights, Value.addAll, binaryNumber]
  | cons bit rest ih =>
    have digit : bitValue bit = bit.toNat := by cases bit <;> rfl
    simp only [bitWeights, Value.addAll, Value.add]
    rw [ih, digit, binaryNumber]
    push_cast
    rw [Int.add_assoc]

section Layouts

variable {root : Expr} {names : List String} {shown : List Expr} {polarity : Polarity} {row : Nat}

theorem Layout.matchingRows_eq (layout : Layout root names shown) (polarity : Polarity) :
    (tableFor root names shown).matchingRows polarity =
      .ok (rowsWith polarity.result (root.column names)) := by
  rw [Table.matchingRows_eq layout.column_result, List.map_map]
  simp [Function.comp_def]

theorem Layout.cell_eq (layout : Layout root names shown)
    (atoms : ∀ name ∈ names, Expr.atom name ∈ shown) (small : row < 2 ^ names.length)
    {name : String} (member : name ∈ names) :
    (tableFor root names shown).cell name row = .ok (bitCell (rowBits names row name)) := by
  simp [Table.cell, layout.column_name atoms member, small]

theorem Layout.displayLiterals_eq (layout : Layout root names shown)
    (atoms : ∀ name ∈ names, Expr.atom name ∈ shown) (small : row < 2 ^ names.length)
    {some : List String} (within : ∀ name ∈ some, name ∈ names) :
    (tableFor root names shown).displayLiterals polarity row some =
      .ok (some.map (literalText polarity (rowBits names row))) := by
  induction some with
  | nil => rfl
  | cons name rest ih =>
    have cell := layout.cell_eq atoms small (within name (List.mem_cons_self ..))
    have later := ih fun other member => within other (List.mem_cons_of_mem _ member)
    simp only [Table.displayLiterals, Table.displayLiteral, cell, later, Except.map, isTrue_bitCell]
    rfl

theorem Layout.displayTerms_eq (layout : Layout root names shown)
    (atoms : ∀ name ∈ names, Expr.atom name ∈ shown) {rows : List Nat}
    (small : ∀ row ∈ rows, row < 2 ^ names.length) :
    (tableFor root names shown).displayTerms polarity rows =
      .ok (rows.map (termText polarity names)) := by
  induction rows with
  | nil => rfl
  | cons row rest ih =>
    have literals : (tableFor root names shown).displayLiterals polarity row names =
        .ok (names.map (literalText polarity (rowBits names row))) :=
      layout.displayLiterals_eq atoms (small row (List.mem_cons_self ..)) fun _ member => member
    have later := ih fun other member => small other (List.mem_cons_of_mem _ member)
    have named : (tableFor root names shown).names = names := rfl
    simp only [Table.displayTerms, Table.displayTerm, named, literals, later, innerGap_eq,
      Except.map]
    rfl

theorem Layout.display_eq (layout : Layout root names shown)
    (atoms : ∀ name ∈ names, Expr.atom name ∈ shown) (polarity : Polarity) :
    (tableFor root names shown).display polarity =
      .ok (formText polarity names (rowsWith polarity.result (root.column names))) := by
  have small : ∀ row ∈ rowsWith polarity.result (root.column names), row < 2 ^ names.length := by
    intro row member
    rw [← root.length_column names]
    exact (List.getElem?_eq_some_iff.mp (mem_rowsWith.mp member)).1
  simp only [Table.display, layout.matchingRows_eq, layout.displayTerms_eq atoms small,
    outerGap_eq, Except.map]
  rfl

theorem Layout.index_eq (layout : Layout root names shown) :
    (tableFor root names shown).index = .ok (.int (binaryNumber (root.column names))) := by
  rw [Table.index, layout.column_weight]
  simp only [addAll_bitWeights, Int.zero_add]
  rfl

end Layouts

namespace Expr

variable {e : Expr}

def results (e : Expr) : List Bool := e.column e.sorted

-- The word that has the results of the rows for its bits, the first row the most significant one.
def index (e : Expr) : Nat := binaryNumber e.results

def rows (polarity : Polarity) (e : Expr) : List Nat := rowsWith polarity.result e.results

def displayed (polarity : Polarity) (e : Expr) : String :=
  formText polarity e.sorted (e.rows polarity)

-- What is read off any table of the expression. The columns are those of the one that is made where
-- none is there.
def answer (e : Expr) : Feature → Answer
  | .columns => .columns e.table.columns
  | .chain polarity => .text (e.form polarity).text
  | .display polarity => .text (e.displayed polarity)
  | .displayRows polarity => .text (rowsText polarity (e.rows polarity))
  | .index => .cell (.int (binaryNumber e.results))
  | .positive => .number (e.results.count true)
  | .negative => .number (e.results.count false)
  | .total => .number (2 ^ e.sorted.length)
  | .isTautology => .flag (e.results.count false == 0)
  | .isContradiction => .flag (e.results.count true == 0)
  | .isSatisfiable => .flag (0 < e.results.count true)

theorem index_lt (e : Expr) : e.index < 2 ^ 2 ^ e.sorted.length := by
  rw [← length_column e.sorted e]
  exact binaryNumber_lt e.results

theorem WellFormed.positive_tableOf (formed : e.WellFormed) (named : e.names ≠ [])
    (namesOnly full : Bool) : (e.tableOf namesOnly full).positive = e.results.count true :=
  (formed.layout_shown named namesOnly full).length_listed .disjunctive

theorem WellFormed.negative_tableOf (formed : e.WellFormed) (named : e.names ≠ [])
    (namesOnly full : Bool) : (e.tableOf namesOnly full).negative = e.results.count false :=
  (formed.layout_shown named namesOnly full).length_listed .conjunctive

theorem WellFormed.feature_tableOf (formed : e.WellFormed) (named : e.names ≠ [])
    (namesOnly full : Bool) {f : Feature} (other : f ≠ .columns) :
    (e.tableOf namesOnly full).feature f = .ok (e.answer f) := by
  have layout := formed.layout_shown named namesOnly full
  have atoms := formed.atom_mem_shown namesOnly full
  have positive := formed.positive_tableOf named namesOnly full
  have negative := formed.negative_tableOf named namesOnly full
  cases f with
  | columns => exact absurd rfl other
  | chain polarity => cases polarity <;> rfl
  | display polarity =>
    rw [Table.feature, tableOf, layout.display_eq atoms]
    rfl
  | displayRows polarity =>
    rw [Table.feature, Table.displayRows, tableOf, layout.matchingRows_eq]
    rfl
  | index =>
    rw [Table.feature, tableOf, layout.index_eq]
    rfl
  | positive => rw [Table.feature, positive, answer]
  | negative => rw [Table.feature, negative, answer]
  | total => simp [Table.feature, tableOf, tableFor, answer]
  | isTautology => rw [Table.feature, negative, answer]
  | isContradiction => rw [Table.feature, positive, answer]
  | isSatisfiable => rw [Table.feature, positive, answer]

theorem Tabular.feature_stage (tabular : e.Tabular) (text : String) (bound : Assignment)
    (namesOnly : Bool) (kept : Option Bool) {f : Feature} (other : f ≠ .columns) :
    ((Analysis.stage text e bound namesOnly kept).feature f).1 = .ok (e.answer f) := by
  rw [Analysis.feature_stage tabular, tabular.formed.feature_tableOf tabular.named _ _ other]
  rfl

end Expr

end TruthTables

import TruthTables.Proofs.RowNumbers
import TruthTables.Proofs.Tabulation

namespace TruthTables

def bitCell (bit : Bool) : Value := .int (bitValue bit)

-- What the columns, the weights and the counts of a truth table of the expression are. The names
-- of its variables may be given in any order.
structure Table.Tabulates (t : Table) (root : Expr) (given : List String) : Prop where
  sorted : t.names.Pairwise (· < ·)
  same : t.names.Perm given
  sized : ∀ title cells, (title, cells) ∈ t.columns → cells.length = 2 ^ given.length
  digit : ∀ place (within : place < t.names.length), ∃ cells,
    t.column t.names[place] = .ok cells ∧ ∀ row < 2 ^ given.length,
      cells[row]? = some (bitCell (row.testBit (given.length - 1 - place)))
  result : t.result = .ok ((root.column t.names).map bitCell)
  weight : ∃ cells, t.weight = .ok cells ∧ ∀ row < 2 ^ given.length,
    cells[row]? = some (.int
      (bitValue (root.truth (rowBits t.names row)) * 2 ^ (2 ^ given.length - 1 - row)))
  positive : t.positive = (root.column t.names).count true
  negative : t.negative = (root.column t.names).count false
  total : t.total = 2 ^ given.length
  complete : t.positive + t.negative = t.total

theorem Entries.get?_of_mem {α : Type} {entries : Entries α} {key : String} {value : α}
    (distinct : entries.keys.Nodup) (member : (key, value) ∈ entries) :
    entries.get? key = some value := by
  induction entries with
  | nil => cases member
  | cons entry rest ih =>
    obtain ⟨other, held⟩ := entry
    obtain ⟨fresh, later⟩ := List.nodup_cons.mp distinct
    rcases List.mem_cons.mp member with here | within
    · cases here
      exact if_pos rfl
    · have different : other ≠ key := by
        rintro rfl
        exact fresh (List.mem_map_of_mem (f := (·.1)) within)
      rw [get?, if_neg different, ih later within]

theorem Table.column_of_mem {t : Table} {title : String} {cells : List Value}
    (distinct : t.columns.keys.Nodup) (member : (title, cells) ∈ t.columns) :
    t.column title = .ok cells := by
  rw [column, Entries.get?_of_mem distinct member]

theorem Expr.WellFormed.names_of_mem_subexpressions {e p : Expr} (formed : e.WellFormed)
    (member : p ∈ e.subexpressions) : ∀ name ∈ p.names, name ∈ e.names := by
  intro name within
  have entered : p ∈ e.entered false := member
  have leaf : Expr.atom name ∈ p.entered false :=
    (formed.of_entered entered).atom_mem_entered_iff.mpr within
  exact formed.atom_mem_entered_iff.mp (formed.entered_trans entered leaf)

section Weights

@[simp] theorem length_bitWeights (bits : List Bool) : (bitWeights bits).length = bits.length := by
  induction bits with
  | nil => rfl
  | cons bit rest ih => simp [bitWeights, ih]

theorem bitWeights_getElem? (bits : List Bool) (row : Nat) :
    (bitWeights bits)[row]? =
      bits[row]?.map fun bit => .int (bitValue bit * 2 ^ (bits.length - 1 - row)) := by
  induction bits generalizing row with
  | nil => rfl
  | cons bit rest ih =>
    cases row with
    | zero => simp [bitWeights]
    | succ row =>
      have place : (bit :: rest).length - 1 - (row + 1) = rest.length - 1 - row := by
        simp only [List.length_cons]
        omega
      rw [bitWeights, List.getElem?_cons_succ, List.getElem?_cons_succ, ih, place]

end Weights

section Layouts

variable {root p : Expr} {names : List String} {shown : List Expr}

theorem Layout.within (layout : Layout root names shown) :
    ∀ name ∈ root.names, name ∈ names := fun name => (layout.complete name).mpr

theorem Layout.within_shown (layout : Layout root names shown) (member : p ∈ shown) :
    ∀ name ∈ p.names, name ∈ names := fun name inner =>
  layout.within name (layout.formed.names_of_mem_subexpressions (layout.known p member) name inner)

theorem Layout.shownColumns_eq (layout : Layout root names shown) :
    shownColumns shown (Assignment.all names) =
      shown.map fun p => (p.text, (p.column names).map bitCell) := by
  apply List.map_congr_left
  intro p member
  rw [← Expr.map_truth_all layout.distinct (layout.within_shown member), List.map_map]
  congr 1
  apply List.map_congr_left
  intro a present
  have bound : p.Bound a := fun name inner =>
    Assignment.binds_of_mem_all layout.distinct present (layout.within_shown member name inner)
  rw [valueUnder_of_bound bound]
  rfl

theorem Layout.resultCells_eq (layout : Layout root names shown) :
    resultCells root (Assignment.all names) = (root.column names).map bitCell := by
  rw [← Expr.map_truth_all layout.distinct layout.within, List.map_map]
  rfl

theorem Layout.columns_eq (layout : Layout root names shown) :
    (tableFor root names shown).columns =
      (shown.map fun p => (p.text, (p.column names).map bitCell)) ++
        [(Word.resultTitle, (root.column names).map bitCell),
          (Word.weightTitle, bitWeights (root.column names))] := by
  rw [tableFor, columnsFor, layout.shownColumns_eq, layout.resultCells_eq,
    Expr.map_truth_all layout.distinct layout.within]

theorem Layout.keys_columns (layout : Layout root names shown) :
    (tableFor root names shown).columns.keys =
      shown.map Expr.text ++ [Word.resultTitle, Word.weightTitle] := by
  simp [layout.columns_eq, Entries.keys, Function.comp_def]

theorem Layout.nodup_columns (layout : Layout root names shown) :
    (tableFor root names shown).columns.keys.Nodup := by
  have keys : (tableFor root names shown).columns.keys =
      (shown.map Expr.text ++ [Word.resultTitle]) ++ [Word.weightTitle] := by
    simp [layout.keys_columns]
  have fresh : Word.weightTitle ∉ shown.map Expr.text := by
    simpa [shownColumns, Entries.keys, Function.comp_def] using layout.fresh_title (.inr rfl) []
  have other : Word.weightTitle ≠ Word.resultTitle := by decide
  rw [keys, List.nodup_append]
  refine ⟨layout.nodup_titles, by simp, ?_⟩
  intro title member weight single same
  rw [List.mem_singleton.mp single] at same
  rcases List.mem_append.mp member with front | back
  · exact fresh (same ▸ front)
  · exact other (same ▸ List.mem_singleton.mp back)

theorem Layout.column_shown (layout : Layout root names shown) (member : p ∈ shown) :
    (tableFor root names shown).column p.text = .ok ((p.column names).map bitCell) := by
  apply Table.column_of_mem layout.nodup_columns
  rw [layout.columns_eq]
  exact List.mem_append_left _ (List.mem_map_of_mem (f := fun p => (p.text, _)) member)

theorem Layout.column_result (layout : Layout root names shown) :
    (tableFor root names shown).result = .ok ((root.column names).map bitCell) := by
  apply Table.column_of_mem layout.nodup_columns
  rw [layout.columns_eq]
  simp

theorem Layout.column_weight (layout : Layout root names shown) :
    (tableFor root names shown).weight = .ok (bitWeights (root.column names)) := by
  apply Table.column_of_mem layout.nodup_columns
  rw [layout.columns_eq]
  simp

theorem Layout.length_listed (layout : Layout root names shown) (polarity : Polarity) :
    (listed polarity names fun a => root.truth a.bit).length =
      (root.column names).count polarity.result := by
  rw [← Expr.map_truth_all layout.distinct layout.within, listed, ← List.countP_eq_length_filter,
    List.count_eq_countP, List.countP_map]
  rfl

theorem Layout.column_name (layout : Layout root names shown)
    (atoms : ∀ name ∈ names, Expr.atom name ∈ shown) {name : String} (member : name ∈ names) :
    (tableFor root names shown).column name =
      .ok ((List.range (2 ^ names.length)).map fun row => bitCell (rowBits names row name)) := by
  have found := layout.column_shown (atoms name member)
  rwa [Expr.column, List.map_map] at found

theorem Layout.sized (layout : Layout root names shown) (title : String) (cells : List Value)
    (member : (title, cells) ∈ (tableFor root names shown).columns) :
    cells.length = 2 ^ names.length := by
  rw [layout.columns_eq] at member
  rcases List.mem_append.mp member with front | back
  · obtain ⟨p, _, same⟩ := List.mem_map.mp front
    cases same
    simp
  · rcases List.mem_cons.mp back with result | weight
    · cases result
      simp
    · cases List.mem_singleton.mp weight
      rw [length_bitWeights, Expr.length_column]

theorem Layout.tabulates (layout : Layout root names shown)
    (atoms : ∀ name ∈ names, Expr.atom name ∈ shown) (sorted : names.Pairwise (· < ·))
    {given : List String} (same : names.Perm given) :
    (tableFor root names shown).Tabulates root given where
  sorted := sorted
  same := same
  sized title cells member := by
    rw [← same.length_eq]
    exact layout.sized title cells member
  digit place within := by
    refine ⟨_, layout.column_name atoms (List.getElem_mem within), fun row small => ?_⟩
    rw [← same.length_eq] at small ⊢
    have digit : rowBits names row (tableFor root names shown).names[place] =
        row.testBit (names.length - 1 - place) := rowBits_getElem layout.distinct row within
    simp [small, digit]
  result := layout.column_result
  weight := by
    refine ⟨_, layout.column_weight, fun row small => ?_⟩
    rw [← same.length_eq] at small ⊢
    rw [bitWeights_getElem?, Expr.length_column, Expr.column_getElem? small]
    rfl
  positive := layout.length_listed .disjunctive
  negative := layout.length_listed .conjunctive
  total := by
    rw [← same.length_eq]
    simp [tableFor]
  complete := by
    have trueRows := layout.length_listed .disjunctive
    have falseRows := layout.length_listed .conjunctive
    have all := List.count_true_add_count_false (root.column names)
    rw [Expr.length_column] at all
    simp only [Polarity.result] at trueRows falseRows
    simp only [tableFor, trueRows, falseRows, ← all, Nat.cast_add]

end Layouts

end TruthTables

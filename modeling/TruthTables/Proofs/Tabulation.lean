import TruthTables.Proofs.Evaluation
import TruthTables.Proofs.NormalForms
import TruthTables.Table.Build

namespace TruthTables

-- What a table can show of an expression: each variable once, and some of its sub-expressions.
structure Layout (root : Expr) (names : List String) (shown : List Expr) : Prop where
  formed : root.WellFormed
  distinct : names.Nodup
  complete : ∀ name, name ∈ names ↔ name ∈ root.names
  nonempty : shown ≠ []
  once : shown.Nodup
  known : ∀ p ∈ shown, p ∈ root.subexpressions

def rowFor (root : Expr) (shown : List Expr) (a : Assignment) : Row :=
  ⟨a, shown.map fun p => (p.text, p.valueUnder a), root.valueUnder a⟩

def bitWeights : List Bool → List Value
  | [] => []
  | bit :: rest => .int (bitValue bit * (2 ^ rest.length : Nat)) :: bitWeights rest

def shownColumns (shown : List Expr) (rows : List Assignment) : Entries (List Value) :=
  shown.map fun p => (p.text, rows.map fun a => (p.valueUnder a).cell)

def resultCells (root : Expr) (rows : List Assignment) : List Value :=
  rows.map fun a => .int (bitValue (root.truth a.bit))

def columnsFor (root : Expr) (shown : List Expr) (rows : List Assignment) :
    Entries (List Value) :=
  shownColumns shown rows ++
    [(Word.resultTitle, resultCells root rows),
      (Word.weightTitle, bitWeights (rows.map fun a => root.truth a.bit))]

def tableFor (root : Expr) (names : List String) (shown : List Expr) : Table where
  names := names
  columns := columnsFor root shown (Assignment.all names)
  disjunctive := (normalForm .disjunctive names fun a => root.truth a.bit).text
  conjunctive := (normalForm .conjunctive names fun a => root.truth a.bit).text
  positive := (listed .disjunctive names fun a => root.truth a.bit).length
  negative := (listed .conjunctive names fun a => root.truth a.bit).length
  total := (2 ^ names.length : Nat)

namespace Expr

theorem WellFormed.isName {e : Expr} (formed : e.WellFormed) {name : String}
    (member : name ∈ e.names) : Word.IsName name := by
  induction formed with
  | atom named =>
    rw [List.mem_singleton.mp member]
    exact named
  | zero | one => cases member
  | not _ ih => exact ih member
  | binary _ _ first second =>
    rcases List.mem_append.mp member with front | back
    · exact first front
    · exact second back

theorem WellFormed.text_ne_title {e : Expr} (formed : e.WellFormed) {title : String}
    (taken : title = Word.resultTitle ∨ title = Word.weightTitle) : e.text ≠ title := by
  intro same
  have word : title.toList.head? ≠ some '(' ∧ title ≠ "0" ∧ title ≠ "1" := by
    rcases taken with rfl | rfl <;> decide
  cases formed with
  | atom named =>
    obtain ⟨free, _⟩ := named
    subst same
    rcases taken with same | same <;> simp [text, Word.isReserved] at free same <;> simp_all
  | zero => exact word.2.1 same.symm
  | one => exact word.2.2 same.symm
  | not inner =>
    apply word.1
    rw [← same]
    simp [text]
  | binary first second =>
    apply word.1
    rw [← same]
    simp [text]

end Expr

section Rows

variable {root : Expr} {names : List String} {shown : List Expr} {a : Assignment}

theorem gather_entriesOf {seen : List Expr} (all : ∀ p ∈ seen, p.WellFormed)
    (known : ∀ p ∈ shown, p ∈ seen) :
    Row.gather (entriesOf a seen) (shown.map Expr.text) =
      .ok (shown.map fun p => (p.text, p.valueUnder a)) := by
  induction shown with
  | nil => rfl
  | cons p rest ih =>
    have member := known p (by simp)
    have found := get?_entriesOf a all (all p member)
    rw [if_pos member] at found
    have later := ih fun q within => known q (List.mem_cons_of_mem _ within)
    simp [Row.gather, found, later]

theorem Layout.row (layout : Layout root names shown) (a : Assignment) :
    Row.ofAssignment root (shown.map Expr.text) a = .ok (rowFor root shown a) := by
  have all : ∀ p ∈ (root.entered false).eraseDups, p.WellFormed := fun p member =>
    layout.formed.of_entered (List.mem_eraseDups.mp member)
  have known : ∀ p ∈ shown, p ∈ (root.entered false).eraseDups := fun p member =>
    List.mem_eraseDups.mpr (layout.known p member)
  simp only [Row.ofAssignment, evaluate_eq a layout.formed, gather_entriesOf all known]
  rfl

theorem Layout.rows (layout : Layout root names shown) (rows : List Assignment) :
    rowsOf root (shown.map Expr.text) rows = .ok (rows.map (rowFor root shown)) := by
  induction rows with
  | nil => rfl
  | cons a rest ih => simp [rowsOf, layout.row a, ih]

theorem weights_resultCells (root : Expr) (rows : List Assignment) :
    weights (resultCells root rows) = .ok (bitWeights (rows.map fun a => root.truth a.bit)) := by
  induction rows with
  | nil => rfl
  | cons a rest ih =>
    rw [resultCells] at ih
    simp [resultCells, weights, Value.times, ih, bitWeights]

theorem valueUnder_of_bound {e : Expr} (bound : e.Bound a) :
    e.valueUnder a = .ofBit (e.truth a.bit) := if_pos bound

@[simp] theorem cell_ofBit (bit : Bool) : (TruthValue.ofBit bit).cell = .int (bitValue bit) := rfl

theorem isTrue_rowFor (bound : root.Bound a) : (rowFor root shown a).isTrue = root.truth a.bit := by
  simp only [Row.isTrue, rowFor, valueUnder_of_bound bound, cell_ofBit]
  cases root.truth a.bit <;> rfl

@[simp] theorem ofBit_inj {bit other : Bool} :
    TruthValue.ofBit bit = .ofBit other ↔ bit = other := by
  cases bit <;> cases other <;> decide

theorem literal_rowFor (bound : root.Bound a) {polarity : Polarity}
    (value : root.truth a.bit = polarity.result) {name : String} (binds : a.Binds name) :
    (rowFor root shown a).literal name = (Expr.literal polarity a name).text := by
  obtain ⟨bit, given⟩ := Option.isSome_iff_exists.mp binds
  have held : a.bit name = bit := by simp [Assignment.bit, given]
  simp only [Row.literal, rowFor, valueUnder_of_bound bound, given, Option.map_some,
    Option.some.injEq, ofBit_inj, value, Expr.literal, held]
  split <;> rfl

theorem term_rowFor (bound : root.Bound a) {polarity : Polarity}
    (value : root.truth a.bit = polarity.result) (binds : ∀ name ∈ names, a.Binds name) :
    (rowFor root shown a).term names = (Expr.term polarity names a).text := by
  have literals : names.map (rowFor root shown a).literal =
      (names.map (Expr.literal polarity a)).map Expr.text := by
    rw [List.map_map]
    exact List.map_congr_left fun name member => literal_rowFor bound value (binds name member)
  have glyph : (if polarity.result then Connective.and.symbol else Connective.or.symbol) =
      polarity.inner.symbol := by
    cases polarity <;> rfl
  simp only [Row.term, isTrue_rowFor bound, value, glyph, literals]
  exact Expr.chain_eq _ _

theorem Layout.bound (layout : Layout root names shown) (present : a ∈ Assignment.all names) :
    root.Bound a :=
  fun name member => Assignment.binds_of_mem_all layout.distinct present
    ((layout.complete name).mpr member)

theorem Layout.filter_rows (layout : Layout root names shown) (polarity : Polarity) :
    ((Assignment.all names).map (rowFor root shown)).filter
        (fun row => row.isTrue == polarity.result) =
      (listed polarity names fun a => root.truth a.bit).map (rowFor root shown) := by
  rw [List.filter_map, listed]
  congr 1
  apply List.filter_congr
  intro a present
  rw [Function.comp_apply, isTrue_rowFor (layout.bound present)]

theorem Layout.chain_terms (layout : Layout root names shown) (polarity : Polarity) :
    chain polarity.outer.symbol
        (((listed polarity names fun a => root.truth a.bit).map (rowFor root shown)).map
          (·.term names)) =
      (normalForm polarity names fun a => root.truth a.bit).text := by
  rw [normalForm, ← Expr.chain_eq, List.map_map, List.map_map]
  congr 1
  apply List.map_congr_left
  intro a row
  obtain ⟨present, value⟩ := mem_listed.mp row
  exact term_rowFor (layout.bound present) value fun name member =>
    Assignment.binds_of_mem_all layout.distinct present member

end Rows

section Columns

variable {root : Expr} {names : List String} {shown : List Expr}

theorem filterMap_of_nodup {α : Type} {pairs : List (String × α)} {key : String} {value : α}
    (distinct : (pairs.map (·.1)).Nodup) (member : (key, value) ∈ pairs) :
    (pairs.filterMap fun (other, value) => if other = key then some value else none) =
      [value] := by
  induction pairs with
  | nil => cases member
  | cons pair rest ih =>
    obtain ⟨other, held⟩ := pair
    simp only [List.map_cons, List.nodup_cons, List.mem_map, not_exists, not_and] at distinct
    by_cases here : other = key
    · subst here
      have none : (rest.filterMap fun (name, value) => if name = other then some value else none) =
          [] := by
        apply List.filterMap_eq_nil_iff.mpr
        intro entry within
        simp [distinct.1 entry within]
      rcases List.mem_cons.mp member with same | within
      · cases same
        simp [none]
      · exact absurd rfl (distinct.1 _ within)
    · have within : (key, value) ∈ rest := by
        rcases List.mem_cons.mp member with same | within
        · cases same
          exact absurd rfl here
        · exact within
      simpa [here] using ih distinct.2 within

theorem Layout.nodup_titles (layout : Layout root names shown) :
    (shown.map Expr.text ++ [Word.resultTitle]).Nodup := by
  have formed : ∀ p ∈ shown, p.WellFormed := fun p member =>
    layout.formed.of_entered (show p ∈ root.entered false from layout.known p member)
  refine List.nodup_append.mpr ⟨?_, by simp, ?_⟩
  · exact layout.once.map_on fun p member q other same =>
      (Expr.text_inj (formed p member) (formed q other)).mp same
  · intro title member other single
    obtain ⟨p, within, rfl⟩ := List.mem_map.mp member
    rw [List.mem_singleton.mp single]
    exact (formed p within).text_ne_title (.inl rfl)

theorem Layout.gatherColumn_eq (layout : Layout root names shown) {title : String}
    {g : Assignment → TruthValue}
    (found : ∀ a, (title, g a) ∈ (rowFor root shown a).cells ++
      [(Word.resultTitle, (rowFor root shown a).result)])
    (rows : List Assignment) :
    Table.gatherColumn (rows.map (rowFor root shown)) title = rows.map g := by
  induction rows with
  | nil => rfl
  | cons a rest ih =>
    have distinct : (((rowFor root shown a).cells ++
        [(Word.resultTitle, (rowFor root shown a).result)]).map (·.1)).Nodup := by
      simpa [rowFor, Function.comp_def] using layout.nodup_titles
    have one := filterMap_of_nodup distinct (found a)
    simp only [Table.gatherColumn, List.map_cons, List.flatMap_cons] at ih ⊢
    rw [one, ih]
    rfl

theorem Layout.gather_results (layout : Layout root names shown) :
    (Table.gatherColumn ((Assignment.all names).map (rowFor root shown)) Word.resultTitle).map
        TruthValue.cell =
      resultCells root (Assignment.all names) := by
  rw [layout.gatherColumn_eq (g := fun a => root.valueUnder a) (fun a => by simp [rowFor]),
    List.map_map]
  apply List.map_congr_left
  intro a present
  simp [valueUnder_of_bound (layout.bound present)]

theorem Layout.gather_shown (layout : Layout root names shown) (rows : List Assignment) :
    shown.map (fun p => (p.text,
        (Table.gatherColumn (rows.map (rowFor root shown)) p.text).map TruthValue.cell)) =
      shownColumns shown rows := by
  apply List.map_congr_left
  intro p member
  have gathered : Table.gatherColumn (rows.map (rowFor root shown)) p.text =
      rows.map fun a => p.valueUnder a :=
    layout.gatherColumn_eq
      (fun a => List.mem_append_left _ (List.mem_map_of_mem (f := fun p => (p.text, _)) member)) rows
  rw [gathered, List.map_map]
  rfl

theorem Layout.fresh_title (layout : Layout root names shown) {title : String}
    (taken : title = Word.resultTitle ∨ title = Word.weightTitle) (rows : List Assignment) :
    title ∉ (shownColumns shown rows).keys := by
  intro member
  simp only [Entries.keys, shownColumns, List.map_map, List.mem_map, Function.comp_apply] at member
  obtain ⟨p, within, same⟩ := member
  have formed : p.WellFormed :=
    layout.formed.of_entered (show p ∈ root.entered false from layout.known p within)
  exact formed.text_ne_title taken same

theorem Layout.columns (layout : Layout root names shown) :
    Table.columnsOf (shown.map Expr.text) ((Assignment.all names).map (rowFor root shown)) =
      .ok (columnsFor root shown (Assignment.all names)) := by
  have titles : Entries.ofPairs
      ((shown.map Expr.text ++ [Word.resultTitle]).map fun title => (title, ())) =
        (shown.map Expr.text ++ [Word.resultTitle]).map fun title => (title, ()) := by
    apply Entries.ofPairs_of_nodup
    simpa [Entries.keys, Function.comp_def] using layout.nodup_titles
  have fresh : Word.weightTitle ∉ Entries.keys (shownColumns shown (Assignment.all names) ++
      [(Word.resultTitle, resultCells root (Assignment.all names))]) := by
    rw [Entries.keys, List.map_append, List.mem_append, not_or]
    have other : Word.weightTitle ≠ Word.resultTitle := by decide
    exact ⟨layout.fresh_title (.inr rfl) _, by simpa using other⟩
  simp only [Table.columnsOf, titles]
  simp only [List.map_append, List.map_map, Function.comp_def, List.map_cons, List.map_nil,
    layout.gather_shown, layout.gather_results]
  rw [weights_resultCells, Except.map, Entries.set_of_fresh fresh, List.append_assoc]
  rfl

end Columns

theorem Layout.build {root : Expr} {names : List String} {shown : List Expr}
    (layout : Layout root names shown) (few : names.length < 63) :
    Table.build root names (shown.map Expr.text) = .ok (tableFor root names shown) := by
  have chosen : Table.chosenKeys names (shown.map Expr.text) = shown.map Expr.text := by
    simp [Table.chosenKeys, layout.nonempty]
  have trueRows := layout.filter_rows .disjunctive
  have falseRows := layout.filter_rows .conjunctive
  simp only [Polarity.result, beq_true, beq_false] at trueRows falseRows
  have disjunction := layout.chain_terms .disjunctive
  have conjunction := layout.chain_terms .conjunctive
  simp only [Polarity.outer] at disjunction conjunction
  have counted : Assignment.countAll names = .ok (2 ^ names.length) := by
    rw [Assignment.countAll_eq, if_pos few]
  simp only [Table.build, counted, chosen, layout.rows, Table.ofRows, layout.columns, trueRows,
    falseRows, disjunction, conjunction, List.length_map]
  rfl

theorem Table.build_of_many {root : Expr} {names : List String} (many : 63 ≤ names.length)
    (keys : List String) : build root names keys = .error (.count .beyondLength) := by
  rw [build, Assignment.countAll_eq, if_neg (not_lt.mpr many)]

theorem Layout.result {root : Expr} {names : List String} {shown : List Expr}
    (layout : Layout root names shown) :
    (tableFor root names shown).result = .ok (resultCells root (Assignment.all names)) := by
  have found := Entries.get?_append_of_fresh
    [(Word.resultTitle, resultCells root (Assignment.all names)),
      (Word.weightTitle, bitWeights ((Assignment.all names).map fun a => root.truth a.bit))]
    (layout.fresh_title (.inl rfl) (Assignment.all names))
  simp only [Table.result, Table.column, tableFor, columnsFor, found]
  rfl

end TruthTables

import TruthTables.Proofs.Features
import TruthTables.Proofs.FormRoundTrip
import TruthTables.Proofs.Splitting

namespace TruthTables

def Expr.ofLiteral (text : String) : Expr :=
  match text.toList with
  | '¬' :: name => .not (.atom (String.ofList name))
  | _ => .atom text

namespace Polarity

def readTerms (polarity : Polarity) (form : String) : List (List String) :=
  (Text.split polarity.outerGap form).map (Text.split polarity.innerGap)

def holds (bits : String → Bool) (terms : List (List String)) : Polarity → Bool
  | disjunctive => terms.any (·.all fun literal => (Expr.ofLiteral literal).truth bits)
  | conjunctive => terms.all (·.any fun literal => (Expr.ofLiteral literal).truth bits)

-- The chain of the terms, each the chain of its literals.
def fold (polarity : Polarity) (terms : List (List String)) : String :=
  chain polarity.outer.symbol (terms.map fun literals =>
    chain polarity.inner.symbol (literals.map fun literal => (Expr.ofLiteral literal).text))

def exprOf (polarity : Polarity) (terms : List (List String)) : Expr :=
  .chained polarity.outer (terms.map fun literals =>
    .chained polarity.inner (literals.map Expr.ofLiteral))

end Polarity

section Literals

variable {polarity : Polarity} {bits : String → Bool} {name : String}

theorem Expr.ofLiteral_name (named : Word.IsName name) : ofLiteral name = atom name := by
  obtain ⟨c, rest, split, alpha⟩ := named.letter_first
  unfold ofLiteral
  split
  · rename_i later found
    obtain rfl : c = '¬' := by simpa [split] using congrArg List.head? found
    cases alpha
  · rfl

theorem Expr.ofLiteral_negated (name : String) :
    ofLiteral (negationSymbol ++ name) = .not (.atom name) := by
  have chars : (negationSymbol ++ name).toList = '¬' :: name.toList := by
    rw [String.toList_append]
    rfl
  simp [ofLiteral, chars]

theorem Expr.ofLiteral_literalText (named : Word.IsName name) :
    ofLiteral (literalText polarity bits name) =
      if bits name = polarity.result then atom name else not (atom name) := by
  unfold literalText
  split
  · exact ofLiteral_name named
  · exact ofLiteral_negated name

theorem Word.IsName.solid (named : Word.IsName name) : ' ' ∉ name.toList := fun member =>
  absurd (Word.alphanum_of_isLeaf (.inl named) ' ' member) (by decide)

theorem solid_literalText (named : Word.IsName name) :
    (literalText polarity bits name).toList ≠ [] ∧
      ' ' ∉ (literalText polarity bits name).toList := by
  unfold literalText
  split
  · exact ⟨Word.ne_empty_of_isLeaf (.inl named), named.solid⟩
  · rw [String.toList_append]
    refine ⟨by simp [negationSymbol], ?_⟩
    rintro member
    rcases List.mem_append.mp member with front | back
    · exact absurd front (by decide)
    · exact named.solid back

end Literals

section Gaps

variable {polarity : Polarity} {names : List String} {row : Nat} {rows : List Nat}

@[simp] theorem toList_innerGap (polarity : Polarity) :
    polarity.innerGap.toList = [' ', polarity.inner.glyph, ' '] := by
  cases polarity <;> rfl

@[simp] theorem toList_outerGap (polarity : Polarity) :
    polarity.outerGap.toList = [' ', ' ', polarity.outer.glyph, ' ', ' '] := by
  cases polarity <;> rfl

theorem split_termText (some : names ≠ []) (named : ∀ name ∈ names, Word.IsName name) :
    Text.split polarity.innerGap (termText polarity names row) =
      names.map (literalText polarity (rowBits names row)) := by
  apply Text.split_intercalate (by simp) (by simpa using some)
  intro literal member
  obtain ⟨name, within, rfl⟩ := List.mem_map.mp member
  rw [toList_innerGap]
  exact Text.clear_of_not_mem (solid_literalText (named name within)).2

theorem clear_termText (named : ∀ name ∈ names, Word.IsName name) :
    Text.Clear polarity.outerGap.toList (termText polarity names row).toList := by
  have sign : polarity.inner.glyph ≠ ' ' := by cases polarity <;> decide
  rw [toList_outerGap, termText, String.toList_intercalate, toList_innerGap, List.map_map]
  apply Text.clear_of_apart
  apply Text.apart_intercalate sign
  intro chars member
  obtain ⟨name, within, rfl⟩ := List.mem_map.mp member
  exact solid_literalText (named name within)

theorem split_formText (some : rows ≠ []) (named : ∀ name ∈ names, Word.IsName name) :
    Text.split polarity.outerGap (formText polarity names rows) =
      rows.map (termText polarity names) := by
  apply Text.split_intercalate (by simp) (by simpa using some)
  intro term member
  obtain ⟨row, _, rfl⟩ := List.mem_map.mp member
  exact clear_termText named

theorem readTerms_formText (some : names ≠ []) (named : ∀ name ∈ names, Word.IsName name)
    (any : rows ≠ []) :
    polarity.readTerms (formText polarity names rows) =
      rows.map fun row => names.map (literalText polarity (rowBits names row)) := by
  rw [Polarity.readTerms, split_formText any named, List.map_map]
  exact List.map_congr_left fun row _ => split_termText some named

theorem termText_ne_empty (some : names ≠ []) (named : ∀ name ∈ names, Word.IsName name) :
    termText polarity names row ≠ "" := by
  apply Text.intercalate_ne_empty (by simpa using some)
  rintro _ member rfl
  obtain ⟨name, within, same⟩ := List.mem_map.mp member
  exact (solid_literalText (named name within)).1 (by rw [same]; rfl)

theorem formText_eq_empty_iff (some : names ≠ []) (named : ∀ name ∈ names, Word.IsName name) :
    formText polarity names rows = "" ↔ rows = [] := by
  constructor
  · intro empty
    by_contra any
    refine Text.intercalate_ne_empty (by simpa using any) ?_ empty
    rintro _ member rfl
    obtain ⟨row, _, same⟩ := List.mem_map.mp member
    exact termText_ne_empty some named same
  · rintro rfl
    rfl

end Gaps

section Terms

variable {polarity : Polarity} {terms : List (List String)}

@[simp] theorem text_exprOf (polarity : Polarity) (terms : List (List String)) :
    (polarity.exprOf terms).text = polarity.fold terms := by
  rw [Polarity.exprOf, Polarity.fold, ← Expr.chain_eq, List.map_map]
  congr 1
  apply List.map_congr_left
  intro literals _
  rw [Function.comp_apply, ← Expr.chain_eq, List.map_map]
  rfl

theorem holds_eq_result_iff (bits : String → Bool) :
    polarity.holds bits terms = polarity.result ↔
      ∃ literals ∈ terms, ∀ literal ∈ literals,
        (Expr.ofLiteral literal).truth bits = polarity.result := by
  cases polarity <;> simp [Polarity.holds, Polarity.result]

theorem truth_exprOf (bits : String → Bool) (any : terms ≠ [])
    (some : ∀ literals ∈ terms, literals ≠ []) :
    (polarity.exprOf terms).truth bits = polarity.holds bits terms := by
  have term : ∀ literals ∈ terms,
      (Expr.chained polarity.inner (literals.map Expr.ofLiteral)).truth bits = polarity.result ↔
        ∀ literal ∈ literals, (Expr.ofLiteral literal).truth bits = polarity.result := by
    intro literals member
    rw [truth_inner (by simpa using some literals member)]
    simp
  refine eq_of_eq_iff (Iff.trans ?_ (holds_eq_result_iff bits).symm)
  rw [Polarity.exprOf, truth_outer (by simpa using any)]
  simp only [List.mem_map, exists_exists_and_eq_and]
  exact exists_congr fun literals => and_congr_right (term literals)

end Terms

theorem rowsWith_column (wanted : Bool) (names : List String) (e : Expr) :
    rowsWith wanted (e.column names) =
      (List.range (2 ^ names.length)).filter fun row => e.truth (rowBits names row) == wanted := by
  rw [rowsWith, Expr.length_column]
  apply List.filter_congr
  intro row within
  rw [Expr.column_getElem? (List.mem_range.mp within)]
  rfl

namespace Expr

variable {e : Expr} {polarity : Polarity}

theorem listed_eq (polarity : Polarity) (e : Expr) :
    listed polarity e.sorted (fun a => e.truth a.bit) =
      (e.rows polarity).map (rowAssignment e.sorted) := by
  rw [rows, results, rowsWith_column, listed, Assignment.all_eq e.nodup_sorted, List.filter_map]
  congr 1
  apply List.filter_congr
  intro row _
  rw [Function.comp_apply, truth_rowAssignment fun name member => mem_sorted.mpr member]

theorem WellFormed.isName_sorted (formed : e.WellFormed) : ∀ name ∈ e.sorted, Word.IsName name :=
  fun _ member => formed.isName (mem_sorted.mp member)

-- The literals of the listed rows, which is what is displayed, make up the form.
theorem WellFormed.form_eq (formed : e.WellFormed) (polarity : Polarity) :
    e.form polarity = polarity.exprOf ((e.rows polarity).map fun row =>
      e.sorted.map (literalText polarity (rowBits e.sorted row))) := by
  rw [Expr.form, normalForm, listed_eq, Polarity.exprOf, List.map_map, List.map_map]
  congr 1
  apply List.map_congr_left
  intro row _
  rw [Function.comp_apply, Function.comp_apply, term, List.map_map]
  congr 1
  apply List.map_congr_left
  intro name member
  rw [Function.comp_apply, ofLiteral_literalText (formed.isName_sorted name member), literal,
    bit_rowAssignment member]

theorem rows_ne_nil_iff : e.rows polarity ≠ [] ↔ ∃ bits, e.truth bits = polarity.result := by
  rw [← listed_ne_nil_iff, listed_eq]
  simp

theorem WellFormed.displayed_eq_empty_iff (formed : e.WellFormed) (named : e.names ≠ []) :
    e.displayed polarity = "" ↔ e.rows polarity = [] :=
  formText_eq_empty_iff (sorted_ne_nil named) formed.isName_sorted

theorem WellFormed.readTerms_displayed (formed : e.WellFormed) (named : e.names ≠ [])
    (any : e.rows polarity ≠ []) :
    polarity.readTerms (e.displayed polarity) =
      (e.rows polarity).map fun row => e.sorted.map (literalText polarity (rowBits e.sorted row)) :=
  readTerms_formText (sorted_ne_nil named) formed.isName_sorted any

theorem WellFormed.exprOf_displayed (formed : e.WellFormed) (named : e.names ≠ [])
    (any : e.rows polarity ≠ []) :
    polarity.exprOf (polarity.readTerms (e.displayed polarity)) = e.form polarity := by
  rw [formed.readTerms_displayed named any, formed.form_eq]

theorem WellFormed.holds_displayed (formed : e.WellFormed) (named : e.names ≠ [])
    (any : e.rows polarity ≠ []) (bits : String → Bool) :
    polarity.holds bits (polarity.readTerms (e.displayed polarity)) = e.truth bits := by
  have read := formed.readTerms_displayed named any
  have terms : polarity.readTerms (e.displayed polarity) ≠ [] := by
    rw [read]
    simpa using any
  have literals : ∀ literals ∈ polarity.readTerms (e.displayed polarity), literals ≠ [] := by
    rw [read]
    intro literals member
    obtain ⟨row, _, rfl⟩ := List.mem_map.mp member
    simpa using sorted_ne_nil named
  rw [← truth_exprOf bits terms literals, formed.exprOf_displayed named any,
    truth_form named (rows_ne_nil_iff.mp any)]

end Expr

-- The form that the table displays: a term for each row with the result and a literal for each
-- variable in it, which together say what the expression says and fold into the chain.
structure Table.Displays (t : Table) (root : Expr) (polarity : Polarity) (form : String) :
    Prop where
  shown : t.display polarity = .ok form
  empty : form = "" ↔ rowsWith polarity.result (root.column t.names) = []
  terms (some : form ≠ "") : polarity.readTerms form =
    (rowsWith polarity.result (root.column t.names)).map fun row =>
      t.names.map (literalText polarity (rowBits t.names row))
  meaning (some : form ≠ "") (bits : String → Bool) :
    polarity.holds bits (polarity.readTerms form) = root.truth bits
  folded (some : form ≠ "") :
    t.feature (.chain polarity) = .ok (.text (polarity.fold (polarity.readTerms form)))

theorem Expr.WellFormed.displays {e : Expr} (formed : e.WellFormed) (named : e.names ≠ [])
    (namesOnly full : Bool) (polarity : Polarity) :
    (e.tableOf namesOnly full).Displays e polarity (e.displayed polarity) := by
  have rows (some : e.displayed polarity ≠ "") : e.rows polarity ≠ [] :=
    (formed.displayed_eq_empty_iff named).not.mp some
  refine ⟨?_, formed.displayed_eq_empty_iff named, fun some => ?_, fun some => ?_, fun some => ?_⟩
  · exact (formed.layout_shown named namesOnly full).display_eq
      (formed.atom_mem_shown namesOnly full) polarity
  · exact formed.readTerms_displayed named (rows some)
  · exact formed.holds_displayed named (rows some)
  · rw [formed.feature_tableOf named namesOnly full (by simp), ← text_exprOf,
      formed.exprOf_displayed named (rows some), answer]

theorem displayed_forms_denote_the_formula {text : String} {parsed : Parsed}
    (accepted : parse text = .ok parsed) {bindings : List (String × Value)}
    (valid : ∀ entry ∈ Entries.ofPairs bindings, entry.2.bit?.isSome) (namesOnly full : Bool)
    (asked : List Query) :
    ∃ a, Analysis.start text bindings namesOnly = .ok a ∧
      ((∃ t, ((a.after asked).tabulate full).1 = .ok t) ↔ parsed.names.length < 63) ∧
      ∀ t, ((a.after asked).tabulate full).1 = .ok t → t.Tabulates parsed.root parsed.names ∧
        ∀ polarity, ∃ form, t.Displays parsed.root polarity form := by
  have formed := parse_wellFormed accepted
  obtain ⟨named, names⟩ := parsed_eq accepted
  obtain ⟨bound, started⟩ := Analysis.exists_start accepted valid namesOnly
  refine ⟨_, started, Analysis.exists_tabulate_after_iff accepted bound namesOnly full asked, ?_⟩
  intro t made
  obtain ⟨_, rfl⟩ :=
    (Analysis.tabulate_after_eq_ok_iff accepted bound namesOnly full asked).mp made
  refine ⟨?_, fun polarity => ⟨_, formed.displays named namesOnly full polarity⟩⟩
  rw [names]
  exact formed.tabulates named namesOnly full

-- A formula with more than one term in one of its forms, displayed from a table with all columns.
theorem displayed_forms_denote_the_formula_implication :
    let parsed : Parsed := ⟨.binary .implies (.atom "b") (.atom "a"), ["b", "a"]⟩
    let bindings : List (String × Value) := [("a", .int 0)]
    (parse "(b>a)" = .ok parsed ∧ ∀ entry ∈ Entries.ofPairs bindings, entry.2.bit?.isSome) ∧
      ∃ a t, Analysis.start "(b>a)" bindings false = .ok a ∧
        ((a.after [.feature .total]).tabulate true).1 = .ok t ∧
        t.Tabulates parsed.root parsed.names ∧
        ∀ polarity, ∃ form, t.Displays parsed.root polarity form := by
  intro parsed bindings
  have accepted : parse "(b>a)" = .ok parsed := by cbv
  have valid : ∀ entry ∈ Entries.ofPairs bindings, entry.2.bit?.isSome := by
    simp [bindings, Entries.ofPairs, Entries.set, Value.bit?]
  obtain ⟨a, started, made, displays⟩ :=
    displayed_forms_denote_the_formula accepted valid false true [.feature .total]
  obtain ⟨t, made⟩ := made.mpr (by decide)
  exact ⟨⟨accepted, valid⟩, a, t, started, made, displays t made⟩

end TruthTables

import TruthTables.Proofs.Histories

namespace TruthTables

def givenBit? (given : List (String × Value)) (name : String) : Option Bool :=
  ((Entries.ofPairs given).get? name).bind Value.bit?

def givenBit (given : List (String × Value)) (name : String) : Bool :=
  (givenBit? given name).getD false

-- The bindings give a bit to each of the names and mention no other.
structure Complete (names : List String) (given : List (String × Value)) : Prop where
  bound : ∀ name, name ∈ (Entries.ofPairs given).keys ↔ name ∈ names
  bits : ∀ entry ∈ Entries.ofPairs given, entry.2.bit?.isSome

def bindingsOf (names : List String) (bits : String → Bool) : List (String × Value) :=
  names.map fun name => (name, bitCell (bits name))

def Table.bindingsAt (t : Table) (row : Nat) :
    List String → Except TableError (List (String × Value))
  | [] => .ok []
  | title :: rest =>
    match t.cell title row with
    | .error error => .error error
    | .ok value => (t.bindingsAt row rest).map ((title, value) :: ·)

theorem Entries.exists_of_mem_keys {α : Type} {entries : Entries α} {name : String}
    (member : name ∈ entries.keys) :
    ∃ value, entries.get? name = some value ∧ (name, value) ∈ entries := by
  induction entries with
  | nil => cases member
  | cons entry rest ih =>
    obtain ⟨key, held⟩ := entry
    by_cases here : key = name
    · subst here
      exact ⟨held, by simp [get?], by simp⟩
    · have later : name ∈ keys rest := by
        rcases List.mem_cons.mp member with same | within
        · exact absurd same.symm here
        · exact within
      obtain ⟨value, found, within⟩ := ih later
      exact ⟨value, by rw [get?, if_neg here, found], List.mem_cons_of_mem _ within⟩

theorem Entries.get?_eq_none {α : Type} {entries : Entries α} {name : String}
    (fresh : name ∉ entries.keys) : entries.get? name = none := by
  have found : get? (entries ++ []) name = none := get?_append_of_fresh [] fresh
  rwa [List.append_nil] at found

section Bindings

variable {names others : List String} {given : List (String × Value)} {name : String}
  {bits : String → Bool}

theorem Complete.congr (complete : Complete names given)
    (same : ∀ name, name ∈ names ↔ name ∈ others) : Complete others given :=
  ⟨fun name => (complete.bound name).trans (same name), complete.bits⟩

theorem Complete.givenBit?_eq (complete : Complete names given) (name : String) :
    givenBit? given name = if name ∈ names then some (givenBit given name) else none := by
  unfold givenBit givenBit?
  by_cases member : name ∈ names
  · obtain ⟨value, found, within⟩ := Entries.exists_of_mem_keys ((complete.bound name).mpr member)
    obtain ⟨bit, equal⟩ := Option.isSome_iff_exists.mp (complete.bits _ within)
    have equal : value.bit? = some bit := equal
    simp [member, found, equal]
  · have none := Entries.get?_eq_none fun key => member ((complete.bound name).mp key)
    simp [member, none]

theorem Complete.exists_assignment {e : Expr} (complete : Complete names given)
    (within : ∀ name ∈ e.names, name ∈ names) :
    ∃ assignment, Assignment.ofBindings given = .ok assignment ∧
      e.valueUnder assignment = .ofBit (e.truth (givenBit given)) := by
  obtain ⟨assignment, made, held⟩ := Assignment.ofEntries_get? complete.bits
  have found : ∀ name, assignment.get? name = givenBit? given name := held
  have binds : e.Bound assignment := by
    intro name member
    rw [Assignment.Binds, found, complete.givenBit?_eq, if_pos (within name member)]
    rfl
  refine ⟨assignment, made, ?_⟩
  rw [valueUnder_of_bound binds]
  congr 1
  exact Expr.truth_congr fun name _ => by rw [Assignment.bit, found, givenBit]

@[simp] theorem bit?_bitCell (bit : Bool) : (bitCell bit).bit? = some bit := by
  cases bit <;> rfl

@[simp] theorem keys_bindingsOf (names : List String) (bits : String → Bool) :
    Entries.keys (bindingsOf names bits) = names := by
  simp [Entries.keys, bindingsOf, Function.comp_def]

theorem ofPairs_bindingsOf (distinct : names.Nodup) :
    Entries.ofPairs (bindingsOf names bits) = bindingsOf names bits :=
  Entries.ofPairs_of_nodup (by rwa [keys_bindingsOf])

theorem complete_bindingsOf (distinct : names.Nodup) (bits : String → Bool) :
    Complete names (bindingsOf names bits) := by
  constructor
  · intro name
    rw [ofPairs_bindingsOf distinct, keys_bindingsOf]
  · intro entry member
    rw [ofPairs_bindingsOf distinct] at member
    obtain ⟨name, _, rfl⟩ := List.mem_map.mp member
    rw [bit?_bitCell]
    rfl

theorem givenBit?_bindingsOf (distinct : names.Nodup) (bits : String → Bool) (name : String) :
    givenBit? (bindingsOf names bits) name = if name ∈ names then some (bits name) else none := by
  by_cases member : name ∈ names
  · have entry : (name, bitCell (bits name)) ∈ bindingsOf names bits :=
      List.mem_map_of_mem (f := fun name => (name, bitCell (bits name))) member
    have found := Entries.get?_of_mem (by rwa [keys_bindingsOf]) entry
    simp [givenBit?, ofPairs_bindingsOf distinct, found, member]
  · rw [(complete_bindingsOf distinct bits).givenBit?_eq, if_neg member, if_neg member]

theorem givenBit_bindingsOf (distinct : names.Nodup) (member : name ∈ names) :
    givenBit (bindingsOf names bits) name = bits name := by
  rw [givenBit, givenBit?_bindingsOf distinct, if_pos member]
  rfl

@[simp] theorem truth_bindingsOf (e : Expr) (bits : String → Bool) :
    e.truth (givenBit (bindingsOf e.sorted bits)) = e.truth bits :=
  Expr.truth_congr fun _ member =>
    givenBit_bindingsOf e.nodup_sorted (Expr.mem_sorted.mpr member)

theorem exists_complete {e : Expr} (same : ∀ name, name ∈ names ↔ name ∈ e.names)
    (bits : String → Bool) :
    ∃ given, Complete names given ∧ e.truth (givenBit given) = e.truth bits := by
  have complete := complete_bindingsOf e.nodup_sorted bits
  exact ⟨_, complete.congr fun name => Expr.mem_sorted.trans (same name).symm,
    truth_bindingsOf e bits⟩

end Bindings

namespace Expr

variable {e : Expr} {bit : Bool}

theorem mem_results : bit ∈ e.results ↔ ∃ bits, e.truth bits = bit := by
  constructor
  · intro member
    obtain ⟨row, _, value⟩ := List.mem_map.mp member
    exact ⟨_, value⟩
  · rintro ⟨bits, rfl⟩
    obtain ⟨row, small, given⟩ := exists_row e.nodup_sorted bits
    have agree : e.truth (rowBits e.sorted row) = e.truth bits :=
      truth_congr fun name member => given name (mem_sorted.mpr member)
    exact List.mem_map.mpr ⟨row, List.mem_range.mpr small, agree⟩

end Expr

namespace Analysis

variable {text : String} {e : Expr} {bound : Assignment} {namesOnly : Bool} {kept : Option Bool}
  {names : List String} {given : List (String × Value)} {bit : Bool}

theorem mismatch?_eq_none {a : Analysis}
    (same : ∀ name, name ∈ names ↔ name ∈ a.names) : a.mismatch? names = none := by
  simp [mismatch?, same]

section Formulas

variable {a : Analysis} (known : a.Of e) (formed : e.WellFormed)
  (same : ∀ name, name ∈ names ↔ name ∈ e.names)
include known formed same

theorem evaluate_of_complete (complete : Complete names given) :
    a.evaluate given = .ok (.ofBit (e.truth (givenBit given))) := by
  obtain ⟨assignment, made, value⟩ := complete.exists_assignment fun name => (same name).mpr
  have made : Assignment.ofEntries (Entries.ofPairs given) = .ok assignment := made
  have bound : ∀ name, name ∈ (Entries.ofPairs given).keys ↔ name ∈ a.names := by
    intro name
    rw [known.names.mem_iff, List.mem_eraseDups, ← same]
    exact complete.bound name
  simp only [evaluate, mismatch?_eq_none bound, made, known.root, evaluate_eq assignment formed,
    value]

theorem mem_results_iff_evaluate :
    bit ∈ e.results ↔ ∃ given, Complete names given ∧ a.evaluate given = .ok (.ofBit bit) := by
  rw [Expr.mem_results]
  constructor
  · rintro ⟨bits, rfl⟩
    obtain ⟨given, complete, agree⟩ := exists_complete same bits
    exact ⟨given, complete, by rw [evaluate_of_complete known formed same complete, agree]⟩
  · rintro ⟨given, complete, value⟩
    rw [evaluate_of_complete known formed same complete] at value
    exact ⟨_, ofBit_inj.mp (Except.ok.inj value)⟩

theorem not_mem_results_iff_evaluate (bit : Bool) :
    (!bit) ∉ e.results ↔
      ∀ given, Complete names given → a.evaluate given = .ok (.ofBit bit) := by
  rw [Expr.mem_results]
  constructor
  · intro never given complete
    rw [evaluate_of_complete known formed same complete]
    congr 2
    by_contra other
    exact never ⟨_, Bool.eq_not_of_ne other⟩
  · rintro all ⟨bits, value⟩
    obtain ⟨given, complete, agree⟩ := exists_complete same bits
    have held := all given complete
    rw [evaluate_of_complete known formed same complete, agree, value, Except.ok.injEq,
      ofBit_inj] at held
    cases bit <;> cases held

end Formulas

-- What the flags say, in terms of evaluation at complete assignments. It gives a truth value for
-- each of them.
structure Classified (a : Analysis) (names : List String) : Prop where
  evaluates : ∀ given, Complete names given → ∃ bit, a.evaluate given = .ok (.ofBit bit)
  tautology : ∃ flag, (a.feature .isTautology).1 = .ok (.flag flag) ∧
    (flag = true ↔ ∀ given, Complete names given → a.evaluate given = .ok (.ofBit true))
  contradiction : ∃ flag, (a.feature .isContradiction).1 = .ok (.flag flag) ∧
    (flag = true ↔ ∀ given, Complete names given → a.evaluate given = .ok (.ofBit false))
  satisfiable : ∃ flag, (a.feature .isSatisfiable).1 = .ok (.flag flag) ∧
    (flag = true ↔ ∃ given, Complete names given ∧ a.evaluate given = .ok (.ofBit true))

theorem classified_stage (tabular : e.Tabular) (same : ∀ name, name ∈ names ↔ name ∈ e.names) :
    (stage text e bound namesOnly kept).Classified names where
  evaluates given complete := ⟨_, evaluate_of_complete of_stage tabular.formed same complete⟩
  tautology := by
    refine ⟨_, tabular.feature_stage text bound namesOnly kept (by simp), ?_⟩
    rw [beq_iff_eq, List.count_eq_zero]
    exact not_mem_results_iff_evaluate of_stage tabular.formed same true
  contradiction := by
    refine ⟨_, tabular.feature_stage text bound namesOnly kept (by simp), ?_⟩
    rw [beq_iff_eq, List.count_eq_zero]
    exact not_mem_results_iff_evaluate of_stage tabular.formed same false
  satisfiable := by
    refine ⟨_, tabular.feature_stage text bound namesOnly kept (by simp), ?_⟩
    rw [decide_eq_true_eq, List.count_pos_iff]
    exact mem_results_iff_evaluate of_stage tabular.formed same

end Analysis

-- The rows of the table and the complete assignments to the names, one for one. A row holds the
-- value that evaluation gives at its assignment.
structure Table.Enumerates (t : Table) (a : Analysis) (names : List String) : Prop where
  row : ∀ row : Nat, row < t.total → ∃ given value, t.bindingsAt row t.names = .ok given ∧
    Complete names given ∧ a.evaluate given = .ok value ∧
    t.cell Word.resultTitle row = .ok value.cell
  once : ∀ given, Complete names given → ∃! row : Nat, row < t.total ∧
    ∃ read, t.bindingsAt row t.names = .ok read ∧ ∀ name, givenBit? read name = givenBit? given name

section Rows

variable {root : Expr} {names : List String} {shown : List Expr} {row : Nat}

theorem Layout.bindingsAt_eq (layout : Layout root names shown)
    (atoms : ∀ name ∈ names, Expr.atom name ∈ shown) (small : row < 2 ^ names.length)
    {titles : List String} (within : ∀ name ∈ titles, name ∈ names) :
    (tableFor root names shown).bindingsAt row titles =
      .ok (bindingsOf titles (rowBits names row)) := by
  induction titles with
  | nil => rfl
  | cons title rest ih =>
    have cell := layout.cell_eq atoms small (within title (List.mem_cons_self ..))
    have later := ih fun other member => within other (List.mem_cons_of_mem _ member)
    simp only [Table.bindingsAt, cell, later, Except.map]
    rfl

theorem Layout.cell_result (layout : Layout root names shown) (small : row < 2 ^ names.length) :
    (tableFor root names shown).cell Word.resultTitle row =
      .ok (bitCell (root.truth (rowBits names row))) := by
  have result : (tableFor root names shown).column Word.resultTitle =
      .ok ((root.column names).map bitCell) := layout.column_result
  simp [Table.cell, result, Expr.column_getElem? small]

end Rows

theorem Expr.WellFormed.enumerates {e : Expr} (formed : e.WellFormed) (named : e.names ≠ [])
    {names : List String} (same : ∀ name, name ∈ names ↔ name ∈ e.names) (text : String)
    (bound : Assignment) (namesOnly full : Bool) (kept : Option Bool) :
    (e.tableOf namesOnly full).Enumerates (.stage text e bound namesOnly kept) names := by
  have layout := formed.layout_shown named namesOnly full
  have atoms := formed.atom_mem_shown namesOnly full
  have distinct := e.nodup_sorted
  have columns (name : String) : name ∈ e.sorted ↔ name ∈ names :=
    mem_sorted.trans (same name).symm
  have read {row : Nat} (small : row < 2 ^ e.sorted.length) :
      (e.tableOf namesOnly full).bindingsAt row e.sorted =
        .ok (bindingsOf e.sorted (rowBits e.sorted row)) :=
    layout.bindingsAt_eq atoms small fun _ member => member
  have total (row : Nat) : (row : Int) < (e.tableOf namesOnly full).total ↔
      row < 2 ^ e.sorted.length := Int.ofNat_lt
  constructor
  · intro row within
    have small := (total row).mp within
    have complete := (complete_bindingsOf distinct (rowBits e.sorted row)).congr columns
    refine ⟨_, _, read small, complete,
      Analysis.evaluate_of_complete Analysis.of_stage formed same complete, ?_⟩
    rw [truth_bindingsOf]
    exact layout.cell_result small
  · intro given complete
    have complete := complete.congr fun name => (columns name).symm
    have place (row : Nat) : ((row : Int) < (e.tableOf namesOnly full).total ∧
        ∃ found, (e.tableOf namesOnly full).bindingsAt row e.sorted = .ok found ∧
          ∀ name, givenBit? found name = givenBit? given name) ↔
        row < 2 ^ e.sorted.length ∧ ∀ name ∈ e.sorted, rowBits e.sorted row name =
          givenBit given name := by
      rw [total]
      refine and_congr_right fun small => ?_
      simp only [read small, Except.ok.injEq, exists_eq_left', givenBit?_bindingsOf distinct,
        complete.givenBit?_eq]
      refine forall_congr' fun name => ?_
      by_cases member : name ∈ e.sorted
      · simp only [member, ↓reduceIte, Option.some.injEq, forall_const]
      · simp only [member, ↓reduceIte, IsEmpty.forall_iff]
    exact (existsUnique_congr place).mpr (existsUnique_row distinct (givenBit given))

theorem flags_decide_the_formula {text : String} {parsed : Parsed}
    (accepted : parse text = .ok parsed) (few : parsed.names.length < 63)
    {bindings : List (String × Value)}
    (valid : ∀ entry ∈ Entries.ofPairs bindings, entry.2.bit?.isSome) (namesOnly : Bool)
    (asked : List Query) :
    ∃ started t, Analysis.start text bindings namesOnly = .ok started ∧
      (started.after asked).Classified parsed.names ∧
      (started.after asked).ensureTable.1 = .ok t ∧
      t.Enumerates (started.after asked) parsed.names := by
  have tabular := tabular_of_parse accepted few
  obtain ⟨named, names⟩ := parsed_eq accepted
  have same : ∀ name, name ∈ parsed.names ↔ name ∈ parsed.root.names := by simp [names]
  obtain ⟨bound, started⟩ := Analysis.exists_start accepted valid namesOnly
  refine ⟨_, parsed.root.tableOf namesOnly ((asked.foldl Query.keeps none).getD false), started, ?_⟩
  rw [Analysis.after_stage tabular]
  refine ⟨Analysis.classified_stage tabular same, ?_,
    tabular.formed.enumerates named same text bound namesOnly _ _⟩
  rw [Analysis.ensureTable_stage tabular]

-- The variables are not in their order, and the table that is kept has all columns.
theorem flags_decide_the_formula_implication :
    let parsed : Parsed := ⟨.binary .implies (.atom "b") (.atom "a"), ["b", "a"]⟩
    let bindings : List (String × Value) := [("a", .bool true)]
    let asked : List Query := [.evaluate [("b", .int 1)], .tabulate true]
    (parse "(b>a)" = .ok parsed ∧ parsed.names.length < 63 ∧
        ∀ entry ∈ Entries.ofPairs bindings, entry.2.bit?.isSome) ∧
      ∃ started t, Analysis.start "(b>a)" bindings false = .ok started ∧
        (started.after asked).Classified parsed.names ∧
        (started.after asked).ensureTable.1 = .ok t ∧
        t.Enumerates (started.after asked) parsed.names := by
  intro parsed bindings asked
  have accepted : parse "(b>a)" = .ok parsed := by cbv
  have few : parsed.names.length < 63 := by decide
  have valid : ∀ entry ∈ Entries.ofPairs bindings, entry.2.bit?.isSome := by
    simp [bindings, Entries.ofPairs, Entries.set, Value.bit?]
  exact ⟨⟨accepted, few, valid⟩, flags_decide_the_formula accepted few valid false asked⟩

theorem conjunction_of_many_is_not_classified :
    parse wide.text = .ok ⟨wide, wideNames⟩ ∧
      ∃ a, Analysis.start wide.text [] false = .ok a ∧
        (∃ given, Complete wideNames given ∧ a.evaluate given = .ok (.ofBit true)) ∧
        (∃ given, Complete wideNames given ∧ a.evaluate given = .ok (.ofBit false)) ∧
        ∀ flag, (a.feature .isTautology).1 ≠ .ok (.flag flag) ∧
          (a.feature .isContradiction).1 ≠ .ok (.flag flag) ∧
          (a.feature .isSatisfiable).1 ≠ .ok (.flag flag) := by
  obtain ⟨a, started, unread⟩ := Analysis.exists_start_wide
  have same : ∀ name, name ∈ wideNames ↔ name ∈ wide.names := by simp [wide]
  have evaluates (bit : Bool) : ∃ given, Complete wideNames given ∧
      a.evaluate given = .ok (.ofBit bit) := by
    obtain ⟨given, complete, agree⟩ := exists_complete same fun _ => bit
    have formed := parse_wellFormed parse_wide
    refine ⟨given, complete, ?_⟩
    have value : wideNames.all (fun _ => bit) = bit := by cases bit <;> decide
    rw [Analysis.evaluate_of_complete unread.known formed same complete, agree, wide,
      truth_conjunction _ (by decide), value]
  exact ⟨parse_wide, a, started, evaluates true, evaluates false,
    fun _ => ⟨unread.unread _ _, unread.unread _ _, unread.unread _ _⟩⟩

end TruthTables

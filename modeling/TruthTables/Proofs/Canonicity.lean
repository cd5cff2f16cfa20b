import TruthTables.Proofs.Displays

namespace TruthTables

section Numbers

variable {polarity : Polarity} {wanted : Bool} {first second : List Bool} {rows others : List Nat}

theorem digits_binaryNumber (bits : List Bool) : digits bits.length (binaryNumber bits) = bits := by
  induction bits with
  | nil => rfl
  | cons bit rest ih =>
    have small := binaryNumber_lt rest
    cases bit with
    | false => simpa [binaryNumber, ih] using digits_of_lt small
    | true => simpa [binaryNumber, ih] using digits_two_pow_add small

theorem eq_of_binaryNumber_eq (sized : first.length = second.length)
    (same : binaryNumber first = binaryNumber second) : first = second := by
  rw [← digits_binaryNumber first, sized, same, digits_binaryNumber]

theorem eq_of_rowsWith_eq (sized : first.length = second.length)
    (same : rowsWith wanted first = rowsWith wanted second) : first = second := by
  apply List.ext_getElem sized
  intro row short within
  have listed : row ∈ rowsWith wanted first ↔ row ∈ rowsWith wanted second := by rw [same]
  rw [mem_rowsWith, mem_rowsWith, List.getElem?_eq_getElem short,
    List.getElem?_eq_getElem within, Option.some_inj, Option.some_inj] at listed
  exact eq_of_eq_iff listed

theorem split_rowNumbers (any : rows ≠ []) :
    Text.split "," (",".intercalate (rows.map toString)) = rows.map toString := by
  apply Text.split_intercalate (by decide) (by simpa using any)
  intro number member
  obtain ⟨row, _, rfl⟩ := List.mem_map.mp member
  exact Text.clear_toString rfl row

theorem rowNumbers_eq_empty_iff : ",".intercalate (rows.map toString) = "" ↔ rows = [] := by
  constructor
  · intro empty
    by_contra any
    refine Text.intercalate_ne_empty (by simpa using any) ?_ empty
    rintro _ member rfl
    obtain ⟨row, _, same⟩ := List.mem_map.mp member
    exact Nat.repr_ne_empty same
  · rintro rfl
    rfl

theorem eq_of_rowsText_eq (same : rowsText polarity rows = rowsText polarity others) :
    rows = others := by
  have numbers : ",".intercalate (rows.map toString) = ",".intercalate (others.map toString) := by
    simpa [rowsText] using same
  by_cases none : rows = []
  · rw [rowNumbers_eq_empty_iff.mpr none, eq_comm, rowNumbers_eq_empty_iff] at numbers
    rw [none, numbers]
  · have any : others ≠ [] := by
      rwa [ne_eq, ← rowNumbers_eq_empty_iff, ← numbers, rowNumbers_eq_empty_iff]
    have written : rows.map toString = others.map toString := by
      rw [← split_rowNumbers none, numbers, split_rowNumbers any]
    exact List.map_injective_iff.mpr (fun _ _ => Nat.repr_inj.mp) written

end Numbers

namespace Expr

variable {e other : Expr} {polarity : Polarity}

section Results

variable (columns : e.sorted = other.sorted)
include columns

theorem length_results : e.results.length = other.results.length := by
  rw [results, results, length_column, length_column, columns]

theorem truth_eq_of_results_eq (same : e.results = other.results) (bits : String → Bool) :
    e.truth bits = other.truth bits := by
  obtain ⟨row, small, given⟩ := exists_row e.nodup_sorted bits
  have otherSmall : row < 2 ^ other.sorted.length := columns ▸ small
  have cell : e.truth (rowBits e.sorted row) = other.truth (rowBits other.sorted row) := by
    apply Option.some.inj
    rw [← column_getElem? small, ← column_getElem? otherSmall, ← results, ← results, same]
  have left := truth_congr (e := e) fun name member => given name (mem_sorted.mpr member)
  have right := truth_congr (e := other) fun name member =>
    given name (columns ▸ mem_sorted.mpr member)
  rw [← left, cell, ← columns, right]

theorem results_congr (same : ∀ bits, e.truth bits = other.truth bits) :
    e.results = other.results := by
  rw [results, results, ← columns]
  exact List.map_congr_left fun row _ => same _

theorem answer_congr (same : ∀ bits, e.truth bits = other.truth bits) (f : Feature) :
    e.answer f = other.answer f := by
  have table := table_congr columns same
  have results := results_congr columns same
  cases f with
  | columns => rw [answer, answer, table]
  | chain polarity => rw [answer, answer, form_congr columns same]
  | display polarity => simp only [answer, displayed, rows, results, columns]
  | displayRows polarity => simp only [answer, rows, results]
  | total => rw [answer, answer, columns]
  | index | positive | negative | isTautology | isContradiction | isSatisfiable =>
    simp only [answer, results]

end Results

section Forms

variable (named : e.names ≠ []) (otherNamed : other.names ≠ [])
include named otherNamed

-- Without a term, the expression never has the result; with one, the form says what it says.
theorem truth_eq_of_form_eq (same : e.form polarity = other.form polarity) (bits : String → Bool) :
    e.truth bits = other.truth bits := by
  have both : (∀ bits, e.truth bits ≠ polarity.result) ↔
      ∀ bits, other.truth bits ≠ polarity.result := by
    rw [← form_eq_hole_iff named, same, form_eq_hole_iff otherNamed]
  by_cases never : ∀ bits, e.truth bits ≠ polarity.result
  · exact eq_of_eq_iff (iff_of_false (never bits) (both.mp never bits))
  · have row : ∃ bits, e.truth bits = polarity.result := by simpa using never
    have otherRow : ∃ bits, other.truth bits = polarity.result := by
      simpa using both.not.mp never
    rw [← truth_form named row, same, truth_form otherNamed otherRow]

variable (formed : e.WellFormed) (otherFormed : other.WellFormed)
include formed otherFormed

theorem form_eq_of_text_eq (same : (e.form polarity).text = (other.form polarity).text) :
    e.form polarity = other.form polarity := by
  have both : (∀ bits, e.truth bits ≠ polarity.result) ↔
      ∀ bits, other.truth bits ≠ polarity.result := by
    rw [← text_form_eq_empty_iff formed named, same, text_form_eq_empty_iff otherFormed otherNamed]
  by_cases never : ∀ bits, e.truth bits ≠ polarity.result
  · rw [form_of_never never, form_of_never (both.mp never)]
  · have row : ∃ bits, e.truth bits = polarity.result := by simpa using never
    have otherRow : ∃ bits, other.truth bits = polarity.result := by
      simpa using both.not.mp never
    exact (text_inj (formed.form named row) (otherFormed.form otherNamed otherRow)).mp same

theorem form_eq_of_displayed_eq (same : e.displayed polarity = other.displayed polarity) :
    e.form polarity = other.form polarity := by
  have rows : e.rows polarity = [] ↔ other.rows polarity = [] := by
    rw [← formed.displayed_eq_empty_iff named, same, otherFormed.displayed_eq_empty_iff otherNamed]
  by_cases none : e.rows polarity = []
  · rw [formed.form_eq, otherFormed.form_eq, none, rows.mp none]
    rfl
  · rw [← formed.exprOf_displayed named none, same,
      otherFormed.exprOf_displayed otherNamed (rows.not.mp none)]

end Forms

theorem sorted_congr (same : ∀ name, name ∈ e.names ↔ name ∈ other.names) :
    e.sorted = other.sorted := by
  have members : ∀ name, name ∈ e.sorted ↔ name ∈ other.sorted := fun name =>
    mem_sorted.trans ((same name).trans mem_sorted.symm)
  have perm := (List.perm_ext_iff_of_nodup e.nodup_sorted other.nodup_sorted).mpr members
  exact perm.eq_of_pairwise (fun _ _ _ _ less more => absurd more (not_lt_of_gt less))
    e.pairwise_sorted other.pairwise_sorted

end Expr

def Feature.isCanonical : Feature → Bool
  | .chain _ | .display _ | .displayRows _ | .index => true
  | .columns | .positive | .negative | .total | .isTautology | .isContradiction
  | .isSatisfiable => false

theorem Expr.WellFormed.answer_eq_iff {e other : Expr} (formed : e.WellFormed)
    (named : e.names ≠ []) (otherFormed : other.WellFormed) (otherNamed : other.names ≠ [])
    (columns : e.sorted = other.sorted) {f : Feature} (canonical : f.isCanonical) :
    e.answer f = other.answer f ↔ ∀ bits, e.truth bits = other.truth bits := by
  refine ⟨fun same => ?_, fun same => answer_congr columns same f⟩
  cases f with
  | chain polarity =>
    have form := form_eq_of_text_eq named otherNamed formed otherFormed (Answer.text.inj same)
    exact truth_eq_of_form_eq named otherNamed form
  | display polarity =>
    have form := form_eq_of_displayed_eq named otherNamed formed otherFormed (Answer.text.inj same)
    exact truth_eq_of_form_eq named otherNamed form
  | displayRows polarity =>
    have rows := eq_of_rowsText_eq (Answer.text.inj same)
    exact truth_eq_of_results_eq columns (eq_of_rowsWith_eq (length_results columns) rows)
  | index =>
    have number : binaryNumber e.results = binaryNumber other.results := by
      simpa [answer] using same
    exact truth_eq_of_results_eq columns (eq_of_binaryNumber_eq (length_results columns) number)
  | columns | positive | negative | total | isTautology | isContradiction | isSatisfiable =>
    cases canonical

def Analysis.read (a : Analysis) (asked : List Query) (f : Feature) :
    Except AnalysisError Answer :=
  ((a.after asked).feature f).1

namespace Expr.Tabular

variable {e other : Expr} (tabular : e.Tabular) (text : String) (bound : Assignment)
  (namesOnly : Bool) (asked : List Query)
include tabular

theorem read_stage {f : Feature} (single : f ≠ .columns) :
    (Analysis.stage text e bound namesOnly none).read asked f = .ok (e.answer f) := by
  rw [Analysis.read, Analysis.after_stage tabular]
  exact tabular.feature_stage text bound namesOnly _ single

-- Neither the bindings nor the use that was made of either analysis bear on what tells them apart.
theorem read_eq_iff (otherTabular : other.Tabular) (otherText : String) (otherBound : Assignment)
    (otherOnly : Bool) (otherAsked : List Query) (columns : e.sorted = other.sorted) {f : Feature}
    (canonical : f.isCanonical) :
    (Analysis.stage text e bound namesOnly none).read asked f =
        (Analysis.stage otherText other otherBound otherOnly none).read otherAsked f ↔
      ∀ bits, e.truth bits = other.truth bits := by
  have single : f ≠ .columns := by
    rintro rfl
    cases canonical
  rw [tabular.read_stage _ _ _ _ single, otherTabular.read_stage _ _ _ _ single, Except.ok.injEq]
  exact tabular.formed.answer_eq_iff tabular.named otherTabular.formed otherTabular.named columns
    canonical

end Expr.Tabular

theorem canonical_forms_are_canonical {text otherText : String} {parsed other : Parsed}
    (accepted : parse text = .ok parsed) (few : parsed.names.length < 63)
    (otherAccepted : parse otherText = .ok other)
    (same : ∀ name, name ∈ parsed.names ↔ name ∈ other.names)
    {bindings otherBindings : List (String × Value)}
    (valid : ∀ entry ∈ Entries.ofPairs bindings, entry.2.bit?.isSome)
    (otherValid : ∀ entry ∈ Entries.ofPairs otherBindings, entry.2.bit?.isSome)
    (namesOnly otherOnly : Bool) (asked otherAsked : List Query) :
    ∃ a b, Analysis.start text bindings namesOnly = .ok a ∧
      Analysis.start otherText otherBindings otherOnly = .ok b ∧
      (∀ f, f ≠ .columns → (a.read asked f).isOk ∧ (b.read otherAsked f).isOk) ∧
      List.TFAE [
        ∀ bits, parsed.root.truth bits = other.root.truth bits,
        a.read asked .index = b.read otherAsked .index,
        a.read asked (.chain .disjunctive) = b.read otherAsked (.chain .disjunctive),
        a.read asked (.chain .conjunctive) = b.read otherAsked (.chain .conjunctive),
        a.read asked (.display .disjunctive) = b.read otherAsked (.display .disjunctive),
        a.read asked (.display .conjunctive) = b.read otherAsked (.display .conjunctive),
        a.read asked (.displayRows .disjunctive) = b.read otherAsked (.displayRows .disjunctive),
        a.read asked (.displayRows .conjunctive) =
          b.read otherAsked (.displayRows .conjunctive)] := by
  obtain ⟨_, names⟩ := parsed_eq accepted
  obtain ⟨otherNamed, otherNames⟩ := parsed_eq otherAccepted
  have columns : parsed.root.sorted = other.root.sorted := by
    apply Expr.sorted_congr
    intro name
    rw [← List.mem_eraseDups, ← names, same, otherNames, List.mem_eraseDups]
  have tabular := tabular_of_parse accepted few
  have otherTabular : other.root.Tabular :=
    ⟨parse_wellFormed otherAccepted, otherNamed, columns ▸ tabular.few⟩
  obtain ⟨bound, started⟩ := Analysis.exists_start accepted valid namesOnly
  obtain ⟨otherBound, otherStarted⟩ := Analysis.exists_start otherAccepted otherValid otherOnly
  refine ⟨_, _, started, otherStarted, fun f single => ?_, ?_⟩
  · rw [tabular.read_stage _ _ _ _ single, otherTabular.read_stage _ _ _ _ single]
    exact ⟨rfl, rfl⟩
  · have canonical {f : Feature} (canonical : f.isCanonical) :=
      tabular.read_eq_iff text bound namesOnly asked otherTabular otherText otherBound otherOnly
        otherAsked columns canonical
    apply List.tfae_of_forall (∀ bits, parsed.root.truth bits = other.root.truth bits)
    refine List.forall_mem_cons.mpr ⟨.rfl, ?_⟩
    simp only [List.forall_mem_cons]
    exact ⟨canonical rfl, canonical rfl, canonical rfl, canonical rfl, canonical rfl, canonical rfl,
      canonical rfl, List.forall_mem_nil _⟩

-- The second formula has its variables in another order, and of the first a full table was made.
theorem canonical_forms_are_canonical_implication :
    let parsed : Parsed := ⟨.binary .implies (.atom "b") (.atom "a"), ["b", "a"]⟩
    let other : Parsed := ⟨.binary .or (.atom "a") (.not (.atom "b")), ["a", "b"]⟩
    let bindings : List (String × Value) := [("a", .bool false)]
    (parse "(b>a)" = .ok parsed ∧ parsed.names.length < 63 ∧ parse "(a+¬b)" = .ok other ∧
      (∀ name, name ∈ parsed.names ↔ name ∈ other.names) ∧
      (∀ entry ∈ Entries.ofPairs bindings, entry.2.bit?.isSome) ∧
      ∀ entry ∈ Entries.ofPairs ([] : List (String × Value)), entry.2.bit?.isSome) ∧
    ∃ a b, Analysis.start "(b>a)" bindings false = .ok a ∧
      Analysis.start "(a+¬b)" [] true = .ok b ∧
      (∀ f, f ≠ .columns → (a.read [.tabulate true] f).isOk ∧ (b.read [] f).isOk) ∧
      List.TFAE [
        ∀ bits, parsed.root.truth bits = other.root.truth bits,
        a.read [.tabulate true] .index = b.read [] .index,
        a.read [.tabulate true] (.chain .disjunctive) = b.read [] (.chain .disjunctive),
        a.read [.tabulate true] (.chain .conjunctive) = b.read [] (.chain .conjunctive),
        a.read [.tabulate true] (.display .disjunctive) = b.read [] (.display .disjunctive),
        a.read [.tabulate true] (.display .conjunctive) = b.read [] (.display .conjunctive),
        a.read [.tabulate true] (.displayRows .disjunctive) = b.read [] (.displayRows .disjunctive),
        a.read [.tabulate true] (.displayRows .conjunctive) =
          b.read [] (.displayRows .conjunctive)] := by
  intro parsed other bindings
  have accepted : parse "(b>a)" = .ok parsed := by cbv
  have few : parsed.names.length < 63 := by decide
  have otherAccepted : parse "(a+¬b)" = .ok other := by cbv
  have same : ∀ name, name ∈ parsed.names ↔ name ∈ other.names := by
    simp [parsed, other, or_comm]
  have valid : ∀ entry ∈ Entries.ofPairs bindings, entry.2.bit?.isSome := by
    simp [bindings, Entries.ofPairs, Entries.set, Value.bit?]
  have otherValid : ∀ entry ∈ Entries.ofPairs ([] : List (String × Value)),
      entry.2.bit?.isSome := by
    simp
  exact ⟨⟨accepted, few, otherAccepted, same, valid, otherValid⟩,
    canonical_forms_are_canonical accepted few otherAccepted same valid otherValid false true
      [.tabulate true] []⟩

theorem conjunction_of_many_has_no_canonical_form :
    parse wide.text = .ok ⟨wide, wideNames⟩ ∧
      ∃ a, Analysis.start wide.text [] false = .ok a ∧
        ∀ f, f.isCanonical → ∀ answer, a.read [] f ≠ .ok answer := by
  obtain ⟨a, started, unread⟩ := Analysis.exists_start_wide
  exact ⟨parse_wide, a, started, fun f _ => unread.unread f⟩

end TruthTables

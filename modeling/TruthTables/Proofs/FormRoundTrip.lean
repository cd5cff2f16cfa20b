import TruthTables.Proofs.Stages

namespace TruthTables

namespace Expr

variable {e : Expr} {polarity : Polarity}

theorem WellFormed.text_ne_empty (formed : e.WellFormed) : e.text ≠ "" := by
  intro same
  have none : e.text.toList = [] := by rw [same]; rfl
  cases formed with
  | atom named => exact Word.ne_empty_of_isLeaf (.inl named) none
  | zero => cases none
  | one => cases none
  | not _ => simp [text] at none
  | binary _ _ => simp [text] at none

theorem listed_ne_nil_iff :
    listed polarity e.sorted (fun a => e.truth a.bit) ≠ [] ↔
      ∃ bits, e.truth bits = polarity.result := by
  rw [ne_eq, listed_eq_nil_iff e.nodup_sorted fun name member => mem_sorted.mpr member]
  simp

theorem WellFormed.form (formed : e.WellFormed) (named : e.names ≠ [])
    (some : ∃ bits, e.truth bits = polarity.result) : (e.form polarity).WellFormed :=
  normalForm_wellFormed (sorted_ne_nil named)
    (fun _ member => formed.isName (mem_sorted.mp member)) (listed_ne_nil_iff.mpr some)

theorem form_of_never (never : ∀ bits, e.truth bits ≠ polarity.result) :
    e.form polarity = hole := by
  have none : listed polarity e.sorted (fun a => e.truth a.bit) = [] :=
    (listed_eq_nil_iff e.nodup_sorted fun name member => mem_sorted.mpr member).mpr never
  rw [Expr.form, normalForm, none]
  rfl

theorem text_form_eq_empty_iff (formed : e.WellFormed) (named : e.names ≠ []) :
    (e.form polarity).text = "" ↔ ∀ bits, e.truth bits ≠ polarity.result := by
  constructor
  · intro empty bits value
    exact (formed.form named ⟨bits, value⟩).text_ne_empty empty
  · intro never
    rw [form_of_never never]
    rfl

theorem names_form (some : ∃ bits, e.truth bits = polarity.result) :
    (e.form polarity).names.eraseDups = e.sorted :=
  eraseDups_names_normalForm e.nodup_sorted (listed_ne_nil_iff.mpr some)

theorem sorted_form (some : ∃ bits, e.truth bits = polarity.result) :
    (e.form polarity).sorted = e.sorted := by
  rw [Expr.sorted, names_form some]
  exact sortNames_sortNames _

theorem truth_form (named : e.names ≠ []) (some : ∃ bits, e.truth bits = polarity.result)
    (bits : String → Bool) : (e.form polarity).truth bits = e.truth bits :=
  truth_normalForm_eq e.nodup_sorted (sorted_ne_nil named)
    (fun _ member => mem_sorted.mpr member) (listed_ne_nil_iff.mpr some)

theorem table_form (named : e.names ≠ []) (some : ∃ bits, e.truth bits = polarity.result) :
    (e.form polarity).table = e.table :=
  table_congr (sorted_form some) (truth_form named some)

-- Bringing into normal form twice is the same as once, also into the other form the second time.
theorem form_form (named : e.names ≠ []) (some : ∃ bits, e.truth bits = polarity.result)
    (next : Polarity) : (e.form polarity).form next = e.form next :=
  form_congr (sorted_form some) (truth_form named some) next

theorem names_form_ne_nil (named : e.names ≠ [])
    (some : ∃ bits, e.truth bits = polarity.result) : (e.form polarity).names ≠ [] := by
  intro none
  have sorted := names_form some
  rw [none] at sorted
  exact sorted_ne_nil named sorted.symm

theorem form_eq_hole_iff (named : e.names ≠ []) :
    e.form polarity = hole ↔ ∀ bits, e.truth bits ≠ polarity.result := by
  refine ⟨fun none bits value => ?_, form_of_never⟩
  have kept := names_form_ne_nil named ⟨bits, value⟩
  rw [none] at kept
  exact kept rfl

theorem Tabular.form (tabular : e.Tabular) (some : ∃ bits, e.truth bits = polarity.result) :
    (e.form polarity).Tabular where
  formed := tabular.formed.form tabular.named some
  named := names_form_ne_nil tabular.named some
  few := by
    rw [sorted_form some]
    exact tabular.few

theorem WellFormed.parse_form (formed : e.WellFormed) (named : e.names ≠ [])
    (some : ∃ bits, e.truth bits = polarity.result) :
    parse (e.form polarity).text = .ok ⟨e.form polarity, e.sorted⟩ := by
  rw [← names_form some]
  exact parse_text (formed.form named some) (names_form_ne_nil named some)

end Expr

theorem normal_forms_round_trip {text : String} {parsed : Parsed}
    (accepted : parse text = .ok parsed) (few : parsed.names.length < 63) :
    ∃ a t results, Analysis.start text [] false = .ok a ∧
      a.ensureTable.1 = .ok t ∧ t.result = .ok results ∧
      results = resultCells parsed.root (Assignment.all (sortNames parsed.names)) ∧
      ∀ polarity, ∃ form, (a.feature (.chain polarity)).1 = .ok (.text form) ∧
        (form = "" ↔ ∀ bits, parsed.root.truth bits ≠ polarity.result) ∧
        (form ≠ "" → ∃ again b u, parse form = .ok again ∧
          again.names = sortNames parsed.names ∧
          Analysis.start form [] false = .ok b ∧
          b.ensureTable.1 = .ok u ∧ u.result = .ok results ∧
          (b.feature (.chain polarity)).1 = .ok (.text form)) := by
  have tabular := tabular_of_parse accepted few
  have formed := tabular.formed
  obtain ⟨named, names⟩ := parsed_eq accepted
  refine ⟨_, _, _, Analysis.start_eq accepted rfl false,
    Analysis.ensureTable_fresh tabular [] false, formed.result named, ?_, fun polarity => ?_⟩
  · rw [names]
    rfl
  refine ⟨_, Analysis.form_fresh tabular [] false polarity,
    Expr.text_form_eq_empty_iff formed named, fun some => ?_⟩
  have row : ∃ bits, parsed.root.truth bits = polarity.result := by
    rw [ne_eq, Expr.text_form_eq_empty_iff formed named] at some
    simpa using some
  have again := formed.parse_form named row
  have form := tabular.form row
  refine ⟨_, _, _, again, by rw [names]; rfl, Analysis.start_eq again rfl false,
    Analysis.ensureTable_fresh form [] false, ?_, ?_⟩
  · rw [Expr.table_form named row]
    exact formed.result named
  · rw [Analysis.form_fresh form, Expr.form_form named row]

-- A formula with rows for both forms, its variables not in their order.
theorem normal_forms_round_trip_implication :
    let parsed : Parsed := ⟨.binary .implies (.atom "b") (.atom "a"), ["b", "a"]⟩
    (parse "(b>a)" = .ok parsed ∧ parsed.names.length < 63) ∧
    ∃ a t results, Analysis.start "(b>a)" [] false = .ok a ∧
      a.ensureTable.1 = .ok t ∧ t.result = .ok results ∧
      results = resultCells parsed.root (Assignment.all (sortNames parsed.names)) ∧
      ∀ polarity, ∃ form, (a.feature (.chain polarity)).1 = .ok (.text form) ∧
        (form = "" ↔ ∀ bits, parsed.root.truth bits ≠ polarity.result) ∧
        (form ≠ "" → ∃ again b u, parse form = .ok again ∧
          again.names = sortNames parsed.names ∧
          Analysis.start form [] false = .ok b ∧
          b.ensureTable.1 = .ok u ∧ u.result = .ok results ∧
          (b.feature (.chain polarity)).1 = .ok (.text form)) := by
  intro parsed
  have accepted : parse "(b>a)" = .ok parsed := by cbv
  have few : parsed.names.length < 63 := by decide
  exact ⟨⟨accepted, few⟩, normal_forms_round_trip accepted few⟩

-- A formula that can be true and can be false, and has neither form.
theorem conjunction_of_many_has_no_normal_form :
    parse wide.text = .ok ⟨wide, wideNames⟩ ∧
      (∀ polarity : Polarity, ∃ bits, wide.truth bits = polarity.result) ∧
      ∃ a, Analysis.start wide.text [] false = .ok a ∧
        ∀ polarity form, (a.feature (.chain polarity)).1 ≠ .ok (.text form) := by
  obtain ⟨a, started, unread⟩ := Analysis.exists_start_wide
  refine ⟨parse_wide, fun polarity => ⟨fun _ => polarity.result, ?_⟩, a, started,
    fun _ _ => unread.unread _ _⟩
  rw [wide, truth_conjunction _ (by decide)]
  cases polarity <;> decide

end TruthTables

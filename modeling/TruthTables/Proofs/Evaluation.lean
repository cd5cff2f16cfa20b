import TruthTables.Operation
import TruthTables.Proofs.CanonicalText
import TruthTables.Proofs.OpenValue

namespace TruthTables

namespace Expr

def subexpressions : Expr → List Expr
  | atom name => [atom name]
  | const _ | pair _ _ | hole => []
  | not operand => operand.subexpressions ++ [not operand]
  | binary c left right =>
    left.subexpressions ++ right.subexpressions ++ [binary c left right]

def entered (namesOnly : Bool) (e : Expr) : List Expr :=
  if namesOnly then e.names.map atom else e.subexpressions

variable {namesOnly : Bool} {e p q left right : Expr} {c : Connective}

@[simp] theorem map_text_atom (names : List String) : (names.map atom).map text = names := by
  rw [List.map_map]
  exact List.map_id _

@[simp] theorem entered_atom (name : String) : (atom name).entered namesOnly = [atom name] := by
  cases namesOnly <;> rfl

@[simp] theorem entered_const (value : Int) : (const value).entered namesOnly = [] := by
  cases namesOnly <;> rfl

theorem entered_not :
    (Expr.not e).entered namesOnly =
      e.entered namesOnly ++ if namesOnly then [] else [Expr.not e] := by
  cases namesOnly <;> simp [entered, names, subexpressions]

theorem entered_binary :
    (binary c left right).entered namesOnly =
      left.entered namesOnly ++ right.entered namesOnly ++
        if namesOnly then [] else [binary c left right] := by
  cases namesOnly <;> simp [entered, names, subexpressions]

@[simp] theorem mem_entered_not :
    p ∈ (Expr.not e).entered namesOnly ↔
      p ∈ e.entered namesOnly ∨ namesOnly = false ∧ p = Expr.not e := by
  rw [entered_not]
  cases namesOnly <;> simp

@[simp] theorem mem_entered_binary :
    p ∈ (binary c left right).entered namesOnly ↔
      (p ∈ left.entered namesOnly ∨ p ∈ right.entered namesOnly) ∨
        namesOnly = false ∧ p = binary c left right := by
  rw [entered_binary]
  cases namesOnly <;> simp [or_assoc]

theorem WellFormed.of_entered (formed : e.WellFormed) (member : p ∈ e.entered namesOnly) :
    p.WellFormed := by
  induction formed with
  | @atom name named =>
    rw [entered_atom, List.mem_singleton] at member
    rw [member]
    exact .atom named
  | zero | one => simp at member
  | not inner ih =>
    rcases mem_entered_not.mp member with within | ⟨_, rfl⟩
    · exact ih within
    · exact .not inner
  | binary formedLeft formedRight first second =>
    rcases mem_entered_binary.mp member with (front | back) | ⟨_, rfl⟩
    · exact first front
    · exact second back
    · exact .binary formedLeft formedRight

theorem WellFormed.entered_trans (formed : e.WellFormed) (outer : p ∈ e.entered namesOnly)
    (inner : q ∈ p.entered namesOnly) : q ∈ e.entered namesOnly := by
  induction formed with
  | @atom name named =>
    rw [entered_atom, List.mem_singleton] at outer
    rwa [outer] at inner
  | zero | one => simp at outer
  | not _ ih =>
    rcases mem_entered_not.mp outer with within | ⟨_, rfl⟩
    · exact mem_entered_not.mpr (.inl (ih within))
    · exact inner
  | binary _ _ first second =>
    rcases mem_entered_binary.mp outer with (front | back) | ⟨_, rfl⟩
    · exact mem_entered_binary.mpr (.inl (.inl (first front)))
    · exact mem_entered_binary.mpr (.inl (.inr (second back)))
    · exact inner

theorem WellFormed.atom_mem_entered_iff (formed : e.WellFormed) {name : String} :
    Expr.atom name ∈ e.entered namesOnly ↔ name ∈ e.names := by
  induction formed with
  | atom named => simp [names]
  | zero | one => simp [names]
  | not _ ih => simp [names, ih]
  | binary _ _ first second => simp [names, first, second]

theorem sizeOf_le_of_mem_subexpressions (member : p ∈ e.subexpressions) :
    sizeOf p ≤ sizeOf e := by
  induction e with
  | atom name => simp [List.mem_singleton.mp member]
  | const value => cases member
  | not operand ih =>
    rcases List.mem_append.mp member with within | whole
    · have := ih within
      simp only [not.sizeOf_spec]
      omega
    · simp [List.mem_singleton.mp whole]
  | binary c left right first second =>
    rcases List.mem_append.mp member with operand | whole
    · rcases List.mem_append.mp operand with front | back
      · have := first front
        simp only [binary.sizeOf_spec]
        omega
      · have := second back
        simp only [binary.sizeOf_spec]
        omega
    · simp [List.mem_singleton.mp whole]
  | pair left right => cases member
  | hole => cases member

-- The walk comes to the expression itself last, and not before.
theorem WellFormed.subexpressions_eq (formed : e.WellFormed) (inner : ∀ value, e ≠ .const value) :
    ∃ front, e.subexpressions = front ++ [e] ∧ e ∉ front := by
  cases formed with
  | @atom name named => exact ⟨[], rfl, by simp⟩
  | zero => exact absurd rfl (inner 0)
  | one => exact absurd rfl (inner 1)
  | @not operand _ =>
    refine ⟨operand.subexpressions, rfl, fun member => ?_⟩
    have := sizeOf_le_of_mem_subexpressions member
    simp only [not.sizeOf_spec] at this
    omega
  | @binary c left right _ _ =>
    refine ⟨left.subexpressions ++ right.subexpressions, rfl, fun member => ?_⟩
    rcases List.mem_append.mp member with front | back
    · have := sizeOf_le_of_mem_subexpressions front
      simp only [binary.sizeOf_spec] at this
      omega
    · have := sizeOf_le_of_mem_subexpressions back
      simp only [binary.sizeOf_spec] at this
      omega

end Expr

def entriesOf (bindings : Assignment) (seen : List Expr) : Entries TruthValue :=
  seen.map fun e => (e.text, e.valueUnder bindings)

section Cache

variable (bindings : Assignment) {namesOnly : Bool} {seen : List Expr} {e : Expr}

theorem get?_entriesOf (all : ∀ p ∈ seen, p.WellFormed) (formed : e.WellFormed) :
    (entriesOf bindings seen).get? e.text =
      if e ∈ seen then some (e.valueUnder bindings) else none := by
  induction seen with
  | nil => rfl
  | cons p rest ih =>
    have later := ih fun q member => all q (List.mem_cons_of_mem _ member)
    have same := Expr.text_inj (all p (List.mem_cons_self ..)) formed
    by_cases here : p = e
    · simp [entriesOf, Entries.get?, here]
    · simp only [entriesOf, List.map_cons, Entries.get?, same, here, ↓reduceIte] at later ⊢
      simp [later, Ne.symm here]

theorem set_entriesOf (all : ∀ p ∈ seen, p.WellFormed) (formed : e.WellFormed) :
    (entriesOf bindings seen).set e.text (e.valueUnder bindings) =
      entriesOf bindings (enlist seen e) := by
  induction seen with
  | nil => rfl
  | cons p rest ih =>
    have later := ih fun q member => all q (List.mem_cons_of_mem _ member)
    have same := Expr.text_inj (all p (List.mem_cons_self ..)) formed
    by_cases here : p = e
    · simp [entriesOf, Entries.set, enlist, here]
    · simp only [entriesOf, List.map_cons, Entries.set, same, here, ↓reduceIte] at later ⊢
      rw [later]
      by_cases known : e ∈ rest <;> simp [enlist, known, Ne.symm here]

structure Closed (namesOnly : Bool) (seen : List Expr) : Prop where
  formed : ∀ p ∈ seen, p.WellFormed
  within : ∀ p ∈ seen, ∀ q ∈ p.entered namesOnly, q ∈ seen

theorem Closed.nil (namesOnly : Bool) : Closed namesOnly [] := ⟨by simp, by simp⟩

theorem Closed.enlistAll (closed : Closed namesOnly seen) (formed : e.WellFormed) :
    Closed namesOnly (enlistAll seen (e.entered namesOnly)) := by
  constructor
  · intro p member
    rcases mem_enlistAll.mp member with old | new
    · exact closed.formed p old
    · exact formed.of_entered new
  · intro p member q inner
    rcases mem_enlistAll.mp member with old | new
    · exact mem_enlistAll.mpr (.inl (closed.within p old q inner))
    · exact mem_enlistAll.mpr (.inr (formed.entered_trans new inner))

def holding (bindings : Assignment) (namesOnly : Bool) (seen : List Expr) : Valuation :=
  ⟨bindings, namesOnly, entriesOf bindings seen⟩

theorem enter_holding (closed : Closed namesOnly seen) (formed : e.WellFormed) :
    (holding bindings namesOnly seen).enter e.text (e.valueUnder bindings) =
      (e.valueUnder bindings,
        holding bindings namesOnly (enlistAll seen (if namesOnly then [] else [e]))) := by
  cases namesOnly with
  | true => rfl
  | false =>
    simp only [Valuation.enter, holding, set_entriesOf bindings closed.formed formed]
    rfl

def Visits (visit : Visit) (bindings : Assignment) (namesOnly : Bool) (e : Expr) : Prop :=
  ∀ seen, Closed namesOnly seen →
    visit (holding bindings namesOnly seen) =
      (.ok (e.valueUnder bindings),
        holding bindings namesOnly (enlistAll seen (e.entered namesOnly)))

-- Looking the expression up first changes nothing: what is there is its value, and all that a visit
-- would enter is there too.
theorem Visits.consult (formed : e.WellFormed) (visits : Visits e.visit bindings namesOnly e) :
    Visits (e.consult e.visit) bindings namesOnly e := by
  intro seen closed
  have found := get?_entriesOf bindings closed.formed formed
  rw [Expr.consult, formed.text?]
  by_cases known : e ∈ seen
  · simp [holding, found, known, enlistAll_of_subset (closed.within e known)]
  · have fresh : (holding bindings namesOnly seen).entries.get? e.text = none := by
      rw [if_neg known] at found
      exact found
    simp only [fresh]
    exact visits seen closed

theorem visits (formed : e.WellFormed) : Visits e.visit bindings namesOnly e := by
  induction formed with
  | @atom name named =>
    intro seen closed
    have value : (holding bindings namesOnly seen).ofName name =
        (Expr.atom name).valueUnder bindings := (Expr.valueUnder_atom name).symm
    have set := set_entriesOf bindings closed.formed (.atom named)
    simp only [Expr.visit, Valuation.enterName, value, Expr.entered_atom, enlistAll_singleton]
    rw [holding, holding, ← set]
    rfl
  | zero =>
    intro seen _
    rw [Expr.entered_const]
    rfl
  | one =>
    intro seen _
    rw [Expr.entered_const]
    rfl
  | @not operand inner ih =>
    intro seen closed
    have looked := ih.consult bindings inner seen closed
    have solved := solveUnary_cell (operand.valueUnder bindings)
    have whole := enter_holding bindings (closed.enlistAll inner) (.not inner)
    rw [Expr.visit_not looked solved, ← Expr.valueUnder_not, whole, Expr.entered_not,
      enlistAll_append]
  | @binary c left right formedLeft formedRight first second =>
    intro seen closed
    have middle := closed.enlistAll formedLeft
    have looked := first.consult bindings formedLeft seen closed
    have again := second.consult bindings formedRight _ middle
    have solved := solveBinary_cell c (left.valueUnder bindings) (right.valueUnder bindings)
    have whole := enter_holding bindings (middle.enlistAll formedRight)
      (.binary (c := c) formedLeft formedRight)
    rw [Expr.visit_binary looked again solved, ← Expr.valueUnder_binary, whole,
      Expr.entered_binary, enlistAll_append, enlistAll_append]

theorem evaluate_eq (formed : e.WellFormed) (namesOnly : Bool) :
    e.evaluate bindings namesOnly =
      .ok ⟨entriesOf bindings (e.entered namesOnly).eraseDups, e.valueUnder bindings⟩ := by
  have looked := (visits bindings formed).consult bindings formed [] (Closed.nil namesOnly)
  have start : Valuation.start bindings namesOnly = holding bindings namesOnly [] := rfl
  rw [Expr.evaluate, start, looked, enlistAll_eq_eraseDups]
  rfl

theorem nodup_keys_entriesOf (all : ∀ p ∈ seen, p.WellFormed) (distinct : seen.Nodup) :
    (Entries.keys (entriesOf bindings seen)).Nodup := by
  have keys : Entries.keys (entriesOf bindings seen) = seen.map Expr.text := by
    simp [Entries.keys, entriesOf]
  rw [keys]
  exact distinct.map_on fun p member q other same =>
    (Expr.text_inj (all p member) (all q other)).mp same

theorem lastKey?_entriesOf (front : List Expr) (e : Expr) :
    (entriesOf bindings (front ++ [e])).lastKey? = some e.text := by
  simp [Entries.lastKey?, Entries.keys, entriesOf]

theorem entriesOf_names (e : Expr) :
    entriesOf bindings (e.entered true).eraseDups =
      e.names.eraseDups.map fun name => (name, (Expr.atom name).valueUnder bindings) := by
  have injective : Function.Injective Expr.atom := fun _ _ same => Expr.atom.inj same
  have leaves : e.entered true = e.names.map .atom := rfl
  rw [leaves, eraseDups_map injective, entriesOf, List.map_map]
  rfl

theorem isComplete_holding (formed : e.WellFormed) :
    (holding bindings namesOnly (e.entered namesOnly).eraseDups).isComplete ↔
      e.Bound bindings := by
  simp only [Valuation.isComplete, holding, entriesOf, List.all_map, List.all_eq_true,
    List.mem_eraseDups, Function.comp_apply, Expr.isKnown_valueUnder]
  constructor
  · intro all name member
    exact all _ (formed.atom_mem_entered_iff.mpr member) name (by simp [Expr.names])
  · intro bound p entered name member
    have leaf : Expr.atom name ∈ p.entered namesOnly :=
      (formed.of_entered entered).atom_mem_entered_iff.mpr member
    exact bound name (formed.atom_mem_entered_iff.mp (formed.entered_trans entered leaf))

end Cache

theorem evaluation_agrees_with_truth (e : Expr) (formed : e.WellFormed)
    (bindings : List (String × Value))
    (bits : ∀ entry ∈ Entries.ofPairs bindings, entry.2.bit?.isSome) :
    ∃ assignment, Assignment.ofBindings bindings = .ok assignment ∧
      (∀ name, assignment.get? name = ((Entries.ofPairs bindings).get? name).bind Value.bit?) ∧
      ∃ full plain, e.evaluate assignment false = .ok full ∧
        e.evaluate assignment true = .ok plain ∧
        full.entries =
          e.subexpressions.eraseDups.map (fun p => (p.text, p.valueUnder assignment)) ∧
        full.entries.keys.Nodup ∧
        ((∀ value, e ≠ .const value) → full.entries.lastKey? = some e.text) ∧
        plain.entries =
          e.names.eraseDups.map (fun name => (name, (Expr.atom name).valueUnder assignment)) ∧
        full.result = e.valueUnder assignment ∧ plain.result = full.result ∧
        (Valuation.isComplete ⟨assignment, false, full.entries⟩ ↔
          ∀ name ∈ e.names, assignment.Binds name) ∧
        (Valuation.isComplete ⟨assignment, true, plain.entries⟩ ↔
          ∀ name ∈ e.names, assignment.Binds name) := by
  obtain ⟨assignment, made, same⟩ := Assignment.ofEntries_get? bits
  have all : ∀ p ∈ (e.entered false).eraseDups, p.WellFormed := fun p member =>
    formed.of_entered (List.mem_eraseDups.mp member)
  refine ⟨assignment, made, same, _, _, evaluate_eq assignment formed false,
    evaluate_eq assignment formed true, rfl, ?_, ?_, entriesOf_names assignment e, rfl, rfl,
    isComplete_holding assignment formed, isComplete_holding assignment formed⟩
  · exact nodup_keys_entriesOf assignment all (nodup_eraseDups _)
  · intro inner
    obtain ⟨front, split, fresh⟩ := formed.subexpressions_eq inner
    have last : (e.entered false).eraseDups = front.eraseDups ++ [e] := by
      rw [show e.entered false = front ++ [e] from split, eraseDups_append_singleton fresh]
    rw [last, lastKey?_entriesOf]

-- A variable without a bit, a repeated sub-expression, and a binding of a name that is not there.
theorem evaluation_agrees_with_truth_open :
    let x : Expr := .not (.atom "x")
    let e : Expr := .binary .or (.binary .and x (.const 0)) (.binary .or x (.atom "y"))
    let bindings : List (String × Value) := [("x", .bool true), ("z", .int 0)]
    e.WellFormed ∧ (∀ entry ∈ Entries.ofPairs bindings, entry.2.bit?.isSome) ∧
      (∀ value, e ≠ .const value) ∧
      ∃ assignment full, Assignment.ofBindings bindings = .ok assignment ∧
        e.evaluate assignment false = .ok full ∧ full.entries.lastKey? = some e.text ∧
        full.entries =
          e.subexpressions.eraseDups.map (fun p => (p.text, p.valueUnder assignment)) ∧
        full.result = e.valueUnder assignment := by
  intro x e bindings
  have first : Word.IsName "x" := Word.isName_iff.mpr (by decide)
  have second : Word.IsName "y" := Word.isName_iff.mpr (by decide)
  have formed : e.WellFormed :=
    .binary (.binary (.not (.atom first)) .zero) (.binary (.not (.atom first)) (.atom second))
  have bits : ∀ entry ∈ Entries.ofPairs bindings, entry.2.bit?.isSome := by
    simp [bindings, Entries.ofPairs, Entries.set, Value.bit?]
  have inner : ∀ value, e ≠ .const value := by simp [e]
  obtain ⟨assignment, made, _, full, _, entered, _, listed, _, last, _, result, _⟩ :=
    evaluation_agrees_with_truth e formed bindings bits
  exact ⟨formed, bits, inner, assignment, full, made, entered, last inner, listed, result⟩

end TruthTables

import TruthTables.Proofs.Canonicity

namespace TruthTables

section Numbers

variable {bits : List Bool} {wanted : Bool} {row place : Nat}

theorem pairwise_rowsWith (wanted : Bool) (bits : List Bool) :
    (rowsWith wanted bits).Pairwise (· < ·) :=
  List.pairwise_lt_range.filter _

-- The recursion goes from the most significant digit on, the library's from the least one.
theorem binaryNumber_eq_ofDigits (bits : List Bool) :
    binaryNumber bits = Nat.ofDigits 2 (bits.map Bool.toNat).reverse := by
  induction bits with
  | nil => rfl
  | cons bit rest ih =>
    rw [binaryNumber, ih, List.map_cons, List.reverse_cons, Nat.ofDigits_append,
      Nat.ofDigits_singleton, List.length_reverse, List.length_map, Nat.mul_comm, Nat.add_comm]

theorem getElem?_eq_testBit (within : row < bits.length) :
    bits[row]? = some ((binaryNumber bits).testBit (bits.length - 1 - row)) := by
  have digit := congrArg (·[row]?) (digits_binaryNumber bits)
  simpa [digits, within] using digit.symm

theorem bitCell_testBit (number place : Nat) :
    bitCell (number.testBit place) = .int (number / 2 ^ place % 2 : Nat) := by
  have digit : bitValue (number.testBit place) = ((number.testBit place).toNat : Int) := by
    cases number.testBit place <;> rfl
  rw [bitCell, digit, Nat.toNat_testBit]

-- The places of the ones count from the other end than the rows do.
theorem testBit_binaryNumber_iff :
    (binaryNumber bits).testBit place = true ↔
      ∃ row ∈ rowsWith true bits, place = bits.length - 1 - row := by
  constructor
  · intro one
    have within : place < bits.length := by
      by_contra beyond
      have small := (binaryNumber_lt bits).trans_le
        (Nat.pow_le_pow_right (by decide) (Nat.le_of_not_lt beyond))
      rw [Nat.testBit_lt_two_pow small] at one
      cases one
    have mirrored : bits.length - 1 - (bits.length - 1 - place) = place := by omega
    refine ⟨bits.length - 1 - place, mem_rowsWith.mpr ?_, mirrored.symm⟩
    rw [getElem?_eq_testBit (by omega), mirrored, one]
  · rintro ⟨row, member, rfl⟩
    have listed := mem_rowsWith.mp member
    have within := (List.getElem?_eq_some_iff.mp listed).1
    rw [getElem?_eq_testBit within] at listed
    exact Option.some.inj listed

theorem readRows_numbers {rows : List Nat} (any : rows ≠ []) :
    (Text.split "," (",".intercalate (rows.map toString))).map String.toNat? =
      rows.map some := by
  rw [split_rowNumbers any, List.map_map]
  exact List.map_congr_left fun row _ => Nat.toNat?_repr row

end Numbers

structure PartRows (cells : List Value) (listed : Polarity → List Nat) : Prop where
  ascending : ∀ polarity, (listed polarity).Pairwise (· < ·)
  apart : (listed .disjunctive).Disjoint (listed .conjunctive)
  all : ∀ row, row ∈ listed .disjunctive ∨ row ∈ listed .conjunctive ↔ row < cells.length
  result : ∀ polarity row, row ∈ listed polarity ↔
    ∃ value, cells[row]? = some value ∧ value.isTrue = polarity.result

theorem partRows_rowsWith (cells : List Value) :
    PartRows cells fun polarity => rowsWith polarity.result (cells.map Value.isTrue) where
  ascending polarity := pairwise_rowsWith _ _
  apart := by
    intro row listed other
    rw [mem_rowsWith] at listed other
    rw [listed] at other
    cases other
  all row := by
    rw [mem_rowsWith, mem_rowsWith, List.getElem?_map]
    constructor
    · rintro (listed | listed) <;>
      · obtain ⟨value, found, _⟩ := Option.map_eq_some_iff.mp listed
        exact (List.getElem?_eq_some_iff.mp found).1
    · intro within
      rw [List.getElem?_eq_getElem within]
      cases truth : cells[row].isTrue with
      | true => exact .inl (congrArg some truth)
      | false => exact .inr (congrArg some truth)
  result polarity row := by
    rw [mem_rowsWith, List.getElem?_map, Option.map_eq_some_iff]

structure Table.TellsResults (t : Table) (bits : List Bool) (listed : Polarity → List Nat)
    (number : Nat) : Prop where
  result : t.result = .ok (bits.map bitCell)
  rows : ∀ polarity, t.matchingRows polarity = .ok (listed polarity)
  numbers : ∀ polarity, ∃ inside,
    t.displayRows polarity = .ok (polarity.sign ++ "(" ++ inside ++ ")") ∧
      (inside = "" ↔ listed polarity = []) ∧
      (listed polarity ≠ [] →
        (Text.split "," inside).map String.toNat? = (listed polarity).map some)
  index : t.index = .ok (.int number)
  small : number < 2 ^ bits.length
  -- The digits from the least significant one on are the results from the last row on.
  digits : number = Nat.ofDigits 2 (bits.map Bool.toNat).reverse
  cell : ∀ row < bits.length,
    (bits.map bitCell)[row]? = some (.int (number / 2 ^ (bits.length - 1 - row) % 2 : Nat))
  ones : ∀ place, number.testBit place = true ↔
    ∃ row ∈ listed .disjunctive, place = bits.length - 1 - row

theorem Layout.tellsResults {root : Expr} {names : List String} {shown : List Expr}
    (layout : Layout root names shown) :
    (tableFor root names shown).TellsResults (root.column names)
      (fun polarity => rowsWith polarity.result (root.column names))
      (binaryNumber (root.column names)) where
  result := layout.column_result
  rows := layout.matchingRows_eq
  numbers polarity := by
    refine ⟨_, ?_, rowNumbers_eq_empty_iff, readRows_numbers⟩
    rw [Table.displayRows, layout.matchingRows_eq]
    rfl
  index := layout.index_eq
  small := binaryNumber_lt _
  digits := binaryNumber_eq_ofDigits _
  cell row within := by
    rw [List.getElem?_map, getElem?_eq_testBit within, Option.map_some, bitCell_testBit]
  ones _ := testBit_binaryNumber_iff

theorem row_forms_tell_the_results :
    (∀ (t : Table) (cells : List Value), t.result = .ok cells → ∃ listed : Polarity → List Nat,
      (∀ polarity, t.matchingRows polarity = .ok (listed polarity)) ∧ PartRows cells listed) ∧
    ∀ (text : String) (parsed : Parsed), parse text = .ok parsed →
      ∀ bindings : List (String × Value),
        (∀ entry ∈ Entries.ofPairs bindings, entry.2.bit?.isSome) →
        ∀ (namesOnly full : Bool) (asked : List Query), ∃ a,
          Analysis.start text bindings namesOnly = .ok a ∧
          ((∃ t, ((a.after asked).tabulate full).1 = .ok t) ↔ parsed.names.length < 63) ∧
          ∀ t, ((a.after asked).tabulate full).1 = .ok t → ∃ bits listed number,
            bits.length = 2 ^ parsed.names.length ∧ t.TellsResults bits listed number := by
  constructor
  · intro t cells found
    exact ⟨_, Table.matchingRows_eq found, partRows_rowsWith cells⟩
  · intro text parsed accepted bindings valid namesOnly full asked
    have formed := parse_wellFormed accepted
    have named := (parsed_eq accepted).1
    obtain ⟨bound, started⟩ := Analysis.exists_start accepted valid namesOnly
    refine ⟨_, started, Analysis.exists_tabulate_after_iff accepted bound namesOnly full asked, ?_⟩
    intro t made
    obtain ⟨_, rfl⟩ :=
      (Analysis.tabulate_after_eq_ok_iff accepted bound namesOnly full asked).mp made
    refine ⟨_, _, _, ?_, (formed.layout_shown named namesOnly full).tellsResults⟩
    rw [Expr.length_column, length_sorted accepted]

-- A table put together by hand, of whose five results two count as true, and the full table of an
-- implication after its index was asked for.
theorem row_forms_tell_the_results_mixed :
    let cells : List Value := [.int 7, .text "", .null, .bool true, .list []]
    let t : Table := ⟨["p"], [("result", cells)], "", "", 0, 0, 9⟩
    let parsed : Parsed := ⟨.binary .implies (.atom "q") (.atom "p"), ["q", "p"]⟩
    let bindings : List (String × Value) := [("p", .int 1)]
    (t.result = .ok cells ∧ parse "(q>p)" = .ok parsed ∧
      ∀ entry ∈ Entries.ofPairs bindings, entry.2.bit?.isSome) ∧
    (∃ listed : Polarity → List Nat,
      (∀ polarity, t.matchingRows polarity = .ok (listed polarity)) ∧ PartRows cells listed) ∧
    ∃ a t bits listed number, Analysis.start "(q>p)" bindings false = .ok a ∧
      ((a.after [.feature .index]).tabulate true).1 = .ok t ∧
      bits.length = 2 ^ parsed.names.length ∧ t.TellsResults bits listed number := by
  intro cells t parsed bindings
  have found : t.result = .ok cells := by cbv
  have accepted : parse "(q>p)" = .ok parsed := by cbv
  have valid : ∀ entry ∈ Entries.ofPairs bindings, entry.2.bit?.isSome := by
    simp [bindings, Entries.ofPairs, Entries.set, Value.bit?]
  obtain ⟨a, started, made, tells⟩ := row_forms_tell_the_results.2 "(q>p)" parsed accepted bindings
    valid false true [.feature .index]
  obtain ⟨t', made⟩ := made.mpr (by decide)
  obtain ⟨bits, listed, number, length, told⟩ := tells t' made
  exact ⟨⟨found, accepted, valid⟩, row_forms_tell_the_results.1 t cells found,
    a, t', bits, listed, number, started, made, length, told⟩

end TruthTables

import TruthTables.Proofs.Assignments

namespace TruthTables

def digits (width number : Nat) : List Bool :=
  (List.range width).map fun place => number.testBit (width - 1 - place)

-- The bit that a row gives to each of the names.
def rowBits (names : List String) (row : Nat) (name : String) : Bool :=
  row.testBit (names.length - 1 - names.idxOf name)

def rowAssignment (names : List String) (row : Nat) : Assignment :=
  names.zip (names.map (rowBits names row))

theorem digits_succ (width number : Nat) :
    digits (width + 1) number = number.testBit width :: digits width number := by
  simp only [digits, List.range_succ_eq_map, List.map_cons, List.map_map]
  congr 1
  apply List.map_congr_left
  intro place _
  have shifted : width + 1 - 1 - (place + 1) = width - 1 - place := by omega
  rw [Function.comp_apply, Nat.succ_eq_add_one, shifted]

theorem digits_of_lt {width number : Nat} (small : number < 2 ^ width) :
    digits (width + 1) number = false :: digits width number := by
  rw [digits_succ, Nat.testBit_lt_two_pow small]

theorem digits_two_pow_add {width number : Nat} (small : number < 2 ^ width) :
    digits (width + 1) (2 ^ width + number) = true :: digits width number := by
  have leading : (2 ^ width + number).testBit width = true := by
    rw [Nat.testBit_two_pow_add_eq, Nat.testBit_lt_two_pow small]
    rfl
  rw [digits_succ, leading]
  congr 1
  apply List.map_congr_left
  intro place within
  have lower : width - 1 - place < width := by
    have := List.mem_range.mp within
    omega
  exact Nat.testBit_two_pow_add_gt lower number

theorem eq_of_digits_eq {width first second : Nat} (small : first < 2 ^ width)
    (other : second < 2 ^ width) (same : digits width first = digits width second) :
    first = second := by
  apply Nat.eq_of_testBit_eq
  intro place
  by_cases within : place < width
  · have mirrored : width - 1 - (width - 1 - place) = place := by omega
    have inside : width - 1 - place < width := by omega
    have digit := congrArg (·[width - 1 - place]?) same
    simpa [digits, inside, mirrored] using digit
  · have beyond : 2 ^ width ≤ 2 ^ place := Nat.pow_le_pow_right (by decide) (by omega)
    rw [Nat.testBit_lt_two_pow (small.trans_le beyond),
      Nat.testBit_lt_two_pow (other.trans_le beyond)]

theorem vectors_eq (width : Nat) : vectors width = (List.range (2 ^ width)).map (digits width) := by
  induction width with
  | zero => rfl
  | succ width ih =>
    have zeros : (vectors width).map (false :: ·) =
        (List.range (2 ^ width)).map (digits (width + 1)) := by
      rw [ih, List.map_map]
      exact List.map_congr_left fun row within => (digits_of_lt (List.mem_range.mp within)).symm
    have ones : (vectors width).map (true :: ·) =
        ((List.range (2 ^ width)).map (2 ^ width + ·)).map (digits (width + 1)) := by
      rw [ih, List.map_map, List.map_map]
      exact List.map_congr_left fun row within =>
        (digits_two_pow_add (List.mem_range.mp within)).symm
    rw [vectors, zeros, ones, Nat.pow_succ, Nat.mul_two, List.range_add, List.map_append]

section Names

variable {names : List String} {row : Nat} {name : String}

theorem digits_names (distinct : names.Nodup) (row : Nat) :
    digits names.length row = names.map (rowBits names row) := by
  apply List.ext_getElem
  · simp [digits]
  · intro place short within
    simp [digits, rowBits, distinct.idxOf_getElem]

theorem rowBits_getElem (distinct : names.Nodup) (row : Nat) {place : Nat}
    (within : place < names.length) :
    rowBits names row names[place] = row.testBit (names.length - 1 - place) := by
  rw [rowBits, distinct.idxOf_getElem]

theorem Assignment.all_eq (distinct : names.Nodup) :
    all names = (List.range (2 ^ names.length)).map (rowAssignment names) := by
  rw [all, vectors_eq, List.map_map]
  apply List.map_congr_left
  intro row _
  rw [Function.comp_apply, ofVector_eq distinct (by simp [digits]), digits_names distinct]
  rfl

theorem bit_rowAssignment (member : name ∈ names) :
    (rowAssignment names row).bit name = rowBits names row name := by
  simp [Assignment.bit, rowAssignment, Assignment.get?_zip_map, member]

theorem exists_row (distinct : names.Nodup) (bits : String → Bool) :
    ∃ row < 2 ^ names.length, ∀ name ∈ names, rowBits names row name = bits name := by
  obtain ⟨a, present, given⟩ := Assignment.exists_of_bits distinct bits
  rw [Assignment.all_eq distinct] at present
  obtain ⟨row, within, rfl⟩ := List.mem_map.mp present
  refine ⟨row, List.mem_range.mp within, fun name member => ?_⟩
  rw [← bit_rowAssignment member, Assignment.bit, given name member]
  rfl

theorem eq_of_rowBits_eq (distinct : names.Nodup) {other : Nat} (small : row < 2 ^ names.length)
    (otherSmall : other < 2 ^ names.length)
    (same : ∀ name ∈ names, rowBits names row name = rowBits names other name) : row = other := by
  apply eq_of_digits_eq small otherSmall
  rw [digits_names distinct, digits_names distinct]
  exact List.map_congr_left same

theorem existsUnique_row (distinct : names.Nodup) (bits : String → Bool) :
    ∃! row : Nat, row < 2 ^ names.length ∧ ∀ name ∈ names, rowBits names row name = bits name := by
  obtain ⟨row, small, agree⟩ := exists_row distinct bits
  refine ⟨row, ⟨small, agree⟩, ?_⟩
  rintro other ⟨otherSmall, same⟩
  exact eq_of_rowBits_eq distinct otherSmall small fun name member =>
    (same name member).trans (agree name member).symm

end Names

def Expr.column (names : List String) (e : Expr) : List Bool :=
  (List.range (2 ^ names.length)).map fun row => e.truth (rowBits names row)

@[simp] theorem Expr.length_column (names : List String) (e : Expr) :
    (e.column names).length = 2 ^ names.length := by
  simp [column]

theorem Expr.column_getElem? {names : List String} {e : Expr} {row : Nat}
    (small : row < 2 ^ names.length) :
    (e.column names)[row]? = some (e.truth (rowBits names row)) := by
  simp [column, small]

theorem Expr.truth_rowAssignment {names : List String} {e : Expr}
    (within : ∀ name ∈ e.names, name ∈ names) (row : Nat) :
    e.truth (rowAssignment names row).bit = e.truth (rowBits names row) :=
  truth_congr fun name member => bit_rowAssignment (within name member)

theorem Expr.map_truth_all {names : List String} {e : Expr} (distinct : names.Nodup)
    (within : ∀ name ∈ e.names, name ∈ names) :
    (Assignment.all names).map (fun a => e.truth a.bit) = e.column names := by
  rw [Assignment.all_eq distinct, List.map_map, column]
  exact List.map_congr_left fun row _ => truth_rowAssignment within row

end TruthTables

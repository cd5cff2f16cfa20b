import Mathlib
import TruthTables.Proofs.Compounds

namespace TruthTables

def complement (width word : Nat) : Nat := 2 ^ width - 1 - word

def Connective.bitwise (width : Nat) : Connective → Nat → Nat → Nat
  | and, first, second => first &&& second
  | or, first, second => first ||| second
  | implies, first, second => complement width first ||| second
  | equiv, first, second => complement width (first ^^^ second)

section Words

variable {width first second place : Nat} {bits : List Bool}

theorem binaryNumber_eq (small : first < 2 ^ bits.length)
    (same : digits bits.length first = bits) : binaryNumber bits = first :=
  eq_of_digits_eq (binaryNumber_lt bits) small ((digits_binaryNumber bits).trans same.symm)

theorem complement_lt (width word : Nat) : complement width word < 2 ^ width := by
  have := Nat.two_pow_pos width
  unfold complement
  omega

theorem testBit_complement (small : first < 2 ^ width) (within : place < width) :
    (complement width first).testBit place = !first.testBit place := by
  have shifted : complement width first = 2 ^ width - (first + 1) := by
    unfold complement
    omega
  rw [shifted, Nat.testBit_two_pow_sub_succ small]
  simp [within]

theorem bitwise_lt (c : Connective) (small : first < 2 ^ width) (other : second < 2 ^ width) :
    c.bitwise width first second < 2 ^ width := by
  cases c with
  | and => exact Nat.and_lt_two_pow first other
  | or => exact Nat.or_lt_two_pow small other
  | implies => exact Nat.or_lt_two_pow (complement_lt width first) other
  | equiv => exact complement_lt width _

theorem testBit_bitwise (c : Connective) (small : first < 2 ^ width) (other : second < 2 ^ width)
    (within : place < width) :
    (c.bitwise width first second).testBit place =
      c.apply (first.testBit place) (second.testBit place) := by
  cases c with
  | and => exact Nat.testBit_and ..
  | or => exact Nat.testBit_or ..
  | implies =>
    rw [Connective.bitwise, Nat.testBit_or, testBit_complement small within]
    rfl
  | equiv =>
    rw [Connective.bitwise, testBit_complement (Nat.xor_lt_two_pow small other) within,
      Nat.testBit_xor]
    cases first.testBit place <;> cases second.testBit place <;> rfl

theorem digits_complement (small : first < 2 ^ width) :
    digits width (complement width first) = (digits width first).map Bool.not := by
  rw [digits, digits, List.map_map]
  apply List.map_congr_left
  intro place within
  have := List.mem_range.mp within
  exact testBit_complement small (by omega)

theorem digits_bitwise (c : Connective) (small : first < 2 ^ width) (other : second < 2 ^ width) :
    digits width (c.bitwise width first second) =
      List.zipWith c.apply (digits width first) (digits width second) := by
  rw [digits, digits, digits, List.zipWith_map, List.zipWith_self]
  apply List.map_congr_left
  intro place within
  have := List.mem_range.mp within
  exact testBit_bitwise c small other (by omega)

end Words

namespace Expr

variable {e left right : Expr}

theorem digits_index (e : Expr) : digits (2 ^ e.sorted.length) e.index = e.results := by
  rw [← length_column e.sorted e]
  exact digits_binaryNumber e.results

theorem index_not (e : Expr) : (not e).index = complement (2 ^ e.sorted.length) e.index := by
  have length : (not e).results.length = 2 ^ e.sorted.length := length_column ..
  apply binaryNumber_eq
  · rw [length]
    exact complement_lt _ _
  · rw [length, digits_complement e.index_lt, digits_index, results_not]

theorem index_binary (same : ∀ name, name ∈ left.names ↔ name ∈ right.names) (c : Connective) :
    (binary c left right).index =
      c.bitwise (2 ^ left.sorted.length) left.index right.index := by
  have length : (binary c left right).results.length = 2 ^ left.sorted.length := by
    rw [results, length_column, sorted_binary same]
  have other := right.index_lt
  have word := right.digits_index
  rw [← sorted_congr same] at other word
  apply binaryNumber_eq
  · rw [length]
    exact bitwise_lt c left.index_lt other
  · rw [length, digits_bitwise c left.index_lt other, digits_index, word, results_binary same]

end Expr

-- The index of the text, whatever use is made of its analysis before it is read off.
def HasIndex (text : String) (index : Nat) : Prop :=
  ∀ bindings : List (String × Value),
    (∀ entry ∈ Entries.ofPairs bindings, entry.2.bit?.isSome) → ∀ namesOnly asked,
      ∃ a, Analysis.start text bindings namesOnly = .ok a ∧
        a.read asked .index = .ok (.cell (.int index))

theorem hasIndex {text : String} {parsed : Parsed} (accepted : parse text = .ok parsed)
    (few : parsed.names.length < 63) : HasIndex text parsed.root.index := by
  intro bindings valid namesOnly asked
  obtain ⟨bound, started⟩ := Analysis.exists_start accepted valid namesOnly
  have tabular := tabular_of_parse accepted few
  exact ⟨_, started, tabular.read_stage text bound namesOnly asked (by simp)⟩

theorem connectives_act_bitwise_on_the_index {text other : String} {parsed second : Parsed}
    (accepted : parse text = .ok parsed) (few : parsed.names.length < 63)
    (otherAccepted : parse other = .ok second)
    (same : ∀ name, name ∈ parsed.names ↔ name ∈ second.names) :
    ∃ width a b : Nat, width = 2 ^ parsed.names.length ∧
      HasIndex text a ∧ a < 2 ^ width ∧ HasIndex other b ∧ b < 2 ^ width ∧
      HasIndex (negatedText text) (complement width a) ∧
      ∀ c : Connective, HasIndex (joinTerms c.symbol text other) (c.bitwise width a b) := by
  obtain ⟨_, names⟩ := parsed_eq accepted
  obtain ⟨_, otherNames⟩ := parsed_eq otherAccepted
  have leaves : ∀ name, name ∈ parsed.root.names ↔ name ∈ second.root.names := by
    simpa [names, otherNames] using same
  have columns := Expr.sorted_congr leaves
  have otherFew := (length_names_eq accepted otherAccepted columns).symm.trans_lt few
  have small := second.root.index_lt
  rw [← columns] at small
  refine ⟨2 ^ parsed.root.sorted.length, _, _, ?_, hasIndex accepted few, parsed.root.index_lt,
    hasIndex otherAccepted otherFew, small, ?_, fun c => ?_⟩
  · rw [length_sorted accepted]
  · rw [← Expr.index_not]
    exact hasIndex (parse_negatedText accepted) few
  · have whole := parse_joinTerms c accepted otherAccepted
    have length := length_names_eq accepted whole (Expr.sorted_binary leaves c).symm
    have applied := hasIndex whole (length.symm.trans_lt few)
    rwa [Expr.index_binary leaves] at applied

-- Two variables, named in another order by the second formula, which is spelled with blanks.
theorem connectives_act_bitwise_on_the_index_pair :
    let parsed : Parsed := ⟨.binary .implies (.atom "x") (.atom "y"), ["x", "y"]⟩
    let second : Parsed := ⟨.binary .and (.atom "y") (.not (.atom "x")), ["y", "x"]⟩
    (parse "(x>y)" = .ok parsed ∧ parsed.names.length < 63 ∧ parse "(y • ¬x)" = .ok second ∧
      ∀ name, name ∈ parsed.names ↔ name ∈ second.names) ∧
    ∃ width a b : Nat, width = 2 ^ parsed.names.length ∧
      HasIndex "(x>y)" a ∧ a < 2 ^ width ∧ HasIndex "(y • ¬x)" b ∧ b < 2 ^ width ∧
      HasIndex (negatedText "(x>y)") (complement width a) ∧
      ∀ c : Connective,
        HasIndex (joinTerms c.symbol "(x>y)" "(y • ¬x)") (c.bitwise width a b) := by
  intro parsed second
  have accepted : parse "(x>y)" = .ok parsed := by cbv
  have few : parsed.names.length < 63 := by decide
  have otherAccepted : parse "(y • ¬x)" = .ok second := by cbv
  have same : ∀ name, name ∈ parsed.names ↔ name ∈ second.names := by
    simp [parsed, second, or_comm]
  exact ⟨⟨accepted, few, otherAccepted, same⟩,
    connectives_act_bitwise_on_the_index accepted few otherAccepted same⟩

theorem conjunction_of_many_has_no_index :
    parse wide.text = .ok ⟨wide, wideNames⟩ ∧ ∀ index, ¬HasIndex wide.text index := by
  obtain ⟨a, started, unread⟩ := Analysis.exists_start_wide
  refine ⟨parse_wide, fun index has => ?_⟩
  obtain ⟨a', started', read⟩ := has [] (by simp) false []
  rw [started] at started'
  cases started'
  exact unread.unread _ _ read

end TruthTables

import Mathlib.Data.List.Chain

namespace TruthTables.Text

-- The pieces around the places where the separator stands. The places are looked for from left to
-- right, each after the end of the one before.
def splitChars (separator : List Char) : List Char → List (List Char)
  | [] => [[]]
  | c :: rest =>
    if separator <+: c :: rest then
      [] :: splitChars separator (rest.drop (separator.length - 1))
    else (splitChars separator rest).modifyHead (c :: ·)
termination_by chars => chars.length

def split (separator text : String) : List String :=
  (splitChars separator.toList text.toList).map String.ofList

-- No separator begins inside the piece, neither in the piece alone nor where one follows it.
def Clear (separator piece : List Char) : Prop :=
  ∀ back, back ≠ [] → back <:+ piece → ¬separator <+: back ++ separator

def Apart (c before after : Char) : Prop := ¬(before = c ∧ after = c)

section Clearance

variable {separator piece more : List Char} {c : Char}

theorem Clear.tail (clear : Clear separator (c :: piece)) : Clear separator piece :=
  fun back some ends => clear back some (ends.trans (List.suffix_cons c piece))

theorem Clear.not_prefix (clear : Clear separator (c :: piece)) (rest : List Char) :
    ¬separator <+: c :: (piece ++ (separator ++ rest)) := by
  intro found
  have longer : c :: piece ++ separator <+: c :: (piece ++ (separator ++ rest)) :=
    ⟨rest, by simp⟩
  have fits : separator.length ≤ (c :: piece ++ separator).length := by
    rw [List.length_append]
    omega
  have early := List.prefix_of_prefix_length_le found longer fits
  exact clear _ (List.cons_ne_nil _ _) (List.suffix_refl _) early

theorem Clear.not_prefix_alone (clear : Clear separator (c :: piece)) :
    ¬separator <+: c :: piece := fun found =>
  clear _ (List.cons_ne_nil _ _) (List.suffix_refl _) (found.trans (List.prefix_append _ _))

theorem clear_of_not_mem (other : c ∉ piece) : Clear (c :: more) piece := by
  intro back some ends found
  obtain ⟨first, later, rfl⟩ := List.exists_cons_of_ne_nil some
  obtain rfl : c = first := (List.cons_prefix_cons.mp found).1
  exact other (ends.subset (List.mem_cons_self ..))

theorem clear_toString (other : c.isDigit = false) (n : Nat) :
    Clear (c :: more) (toString n).toList := by
  apply clear_of_not_mem
  intro member
  rw [Nat.toString_eq_repr, Nat.toList_repr] at member
  rw [Nat.isDigit_of_mem_toDigits (by decide) (by decide) member] at other
  cases other

-- So is a piece that neither has the first two characters next to each other nor ends in such a
-- character, where the two are the same.
theorem clear_of_apart (apart : (piece ++ [c]).IsChain (Apart c)) :
    Clear (c :: c :: more) piece := by
  intro back some ends found
  obtain ⟨front, rfl⟩ := ends
  rw [List.append_assoc] at apart
  have tail := apart.right_of_append
  obtain ⟨first, later, rfl⟩ := List.exists_cons_of_ne_nil some
  obtain ⟨same, next⟩ := List.cons_prefix_cons.mp found
  cases later with
  | nil => exact tail.rel ⟨same.symm, rfl⟩
  | cons second later =>
    have again := (List.cons_prefix_cons.mp next).1
    exact tail.rel ⟨same.symm, again.symm⟩

theorem apart_append {front rest : List Char} (solid : c ∉ front)
    (apart : rest.IsChain (Apart c)) :
    (front ++ rest).IsChain (Apart c) := by
  induction front with
  | nil => exact apart
  | cons first front ih =>
    obtain ⟨other, later⟩ := not_or.mp (List.mem_cons.not.mp solid)
    refine List.isChain_cons.mpr ⟨fun next _ both => other both.1.symm, ih later⟩

theorem apart_intercalate {sign : Char} (other : sign ≠ c) {pieces : List (List Char)}
    (solid : ∀ piece ∈ pieces, piece ≠ [] ∧ c ∉ piece) :
    ([c, sign, c].intercalate pieces ++ [c]).IsChain (Apart c) := by
  induction pieces with
  | nil => exact .singleton c
  | cons piece later ih =>
    obtain ⟨_, free⟩ := solid piece (List.mem_cons_self ..)
    have rest := ih fun p member => solid p (List.mem_cons_of_mem _ member)
    cases later with
    | nil =>
      rw [List.intercalate_singleton]
      exact apart_append free (.singleton c)
    | cons next later =>
      obtain ⟨some, freeNext⟩ := solid next (by simp)
      obtain ⟨first, tail, rfl⟩ := List.exists_cons_of_ne_nil some
      have begins : c ≠ first := fun same => freeNext (same ▸ List.mem_cons_self ..)
      rw [List.intercalate_cons_cons_left, List.cons_append] at rest
      rw [List.intercalate_cons_cons, List.intercalate_cons_cons_left, List.append_assoc,
        List.append_assoc]
      refine apart_append free ?_
      have last : Apart c c first := fun both => begins both.2.symm
      have middle : Apart c sign c := fun both => other both.1
      have front : Apart c c sign := fun both => other both.2
      exact .cons_cons front (.cons_cons middle (.cons_cons last rest))

end Clearance

section Cutting

variable {separator piece : List Char}

theorem splitChars_append (some : separator ≠ []) (clear : Clear separator piece)
    (rest : List Char) :
    splitChars separator (piece ++ (separator ++ rest)) = piece :: splitChars separator rest := by
  induction piece with
  | nil =>
    obtain ⟨c, more, rfl⟩ := List.exists_cons_of_ne_nil some
    have here : c :: more <+: c :: (more ++ rest) := ⟨rest, rfl⟩
    rw [List.nil_append, List.cons_append, splitChars, if_pos here]
    simp
  | cons c piece ih =>
    rw [List.cons_append, splitChars, if_neg (clear.not_prefix rest), ih clear.tail]
    rfl

theorem splitChars_of_clear (clear : Clear separator piece) :
    splitChars separator piece = [piece] := by
  induction piece with
  | nil => rw [splitChars]
  | cons c piece ih =>
    rw [splitChars, if_neg clear.not_prefix_alone, ih clear.tail]
    rfl

theorem splitChars_intercalate (some : separator ≠ []) {pieces : List (List Char)}
    (any : pieces ≠ []) (clear : ∀ piece ∈ pieces, Clear separator piece) :
    splitChars separator (separator.intercalate pieces) = pieces := by
  induction pieces with
  | nil => exact absurd rfl any
  | cons piece later ih =>
    have first := clear piece (List.mem_cons_self ..)
    cases later with
    | nil => rw [List.intercalate_singleton, splitChars_of_clear first]
    | cons next later =>
      have rest := ih (List.cons_ne_nil _ _) fun p member => clear p (List.mem_cons_of_mem _ member)
      rw [List.intercalate_cons_cons, List.append_assoc, splitChars_append some first, rest]

end Cutting

theorem split_intercalate {separator : String} (some : separator.toList ≠ [])
    {pieces : List String} (any : pieces ≠ [])
    (clear : ∀ piece ∈ pieces, Clear separator.toList piece.toList) :
    split separator (separator.intercalate pieces) = pieces := by
  have cut : splitChars separator.toList (separator.toList.intercalate (pieces.map String.toList)) =
      pieces.map String.toList := by
    apply splitChars_intercalate some (by simpa using any)
    intro chars member
    obtain ⟨piece, present, rfl⟩ := List.mem_map.mp member
    exact clear piece present
  rw [split, String.toList_intercalate, cut, List.map_map]
  simp [Function.comp_def]

theorem intercalate_ne_empty {separator : String} {pieces : List String} (any : pieces ≠ [])
    (some : ∀ piece ∈ pieces, piece ≠ "") : separator.intercalate pieces ≠ "" := by
  obtain ⟨first, later, rfl⟩ := List.exists_cons_of_ne_nil any
  have begins := some first (List.mem_cons_self ..)
  cases later with
  | nil => rwa [String.intercalate_singleton]
  | cons next later =>
    rw [String.intercalate_cons_cons]
    simp [begins]

example : split ", " "a,, b, , c" = ["a,", "b", "", "c"] := by cbv

end TruthTables.Text

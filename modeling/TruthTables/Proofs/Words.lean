import Mathlib
import TruthTables.Expr.Truth

namespace TruthTables

theorem takeWhile_append_eq {α : Type} {p : α → Bool} {front back : List α}
    (within : ∀ x ∈ front, p x = true) (ends : ∀ x ∈ back.head?, p x = false) :
    (front ++ back).takeWhile p = front ∧ (front ++ back).dropWhile p = back := by
  rw [List.takeWhile_append_of_pos within, List.dropWhile_append_of_pos within]
  cases back with
  | nil => simp
  | cons x rest =>
    have other : p x = false := ends x rfl
    simp [other]

theorem head?_dropWhile_not {α : Type} {p : α → Bool} (items : List α) :
    ∀ x ∈ (items.dropWhile p).head?, p x = false := by
  intro x first
  have stops := List.head?_dropWhile_not p items
  rw [Option.mem_def.mp first] at stops
  exact stops

structure LosesAt {α : Type} (p : List α → Prop) (whole part : List α) : Prop where
  begins : part <+: whole
  lacks : ¬p part
  shortest : ∀ front, front <+: part → front ≠ part → p front

theorem LosesAt.prefix_of_lacks {α : Type} {p : List α → Prop} {whole part other : List α}
    (first : LosesAt p whole part) (begins : other <+: whole) (lacks : ¬p other) :
    part <+: other := by
  rcases List.prefix_or_prefix_of_prefix first.begins begins with shorter | longer
  · exact shorter
  · by_cases same : other = part
    · rw [same]
    · exact absurd (first.shortest other longer same) lacks

theorem exists_losesAt {α : Type} {p : List α → Prop} {whole : List α} (lacks : ¬p whole) :
    ∃ part, LosesAt p whole part := by
  induction size : whole.length using Nat.strongRecOn generalizing whole with
  | ind n ih =>
    by_cases earlier : ∃ front, front <+: whole ∧ front ≠ whole ∧ ¬p front
    · obtain ⟨front, begins, other, missing⟩ := earlier
      have shorter : front.length < n :=
        size ▸ Nat.lt_of_le_of_ne begins.length_le fun same => other (begins.eq_of_length same)
      obtain ⟨part, found⟩ := ih front.length shorter missing rfl
      exact ⟨part, found.begins.trans begins, found.lacks, found.shortest⟩
    · refine ⟨whole, List.prefix_refl _, lacks, fun front begins other => ?_⟩
      by_contra missing
      exact earlier ⟨front, begins, other, missing⟩

theorem not_isAlpha_of_isDigit {c : Char} (digit : c.isDigit) : c.isAlpha = false := by
  have nine : '9'.val.toNat = 57 := rfl
  have upper : 'A'.val.toNat = 65 := rfl
  have lower : 'a'.val.toNat = 97 := rfl
  simp only [Char.isDigit, Bool.and_eq_true, decide_eq_true_eq, UInt32.le_iff_toNat_le] at digit
  simp only [Char.isAlpha, Char.isUpper, Char.isLower, Bool.or_eq_false_iff, Bool.and_eq_false_iff,
    decide_eq_false_iff_not, UInt32.le_iff_toNat_le]
  omega

namespace Word

def IsLeaf (word : String) : Prop := IsName word ∨ word = "0" ∨ word = "1"

def leaf (word : String) : Expr :=
  if word = "0" then .const 0 else if word = "1" then .const 1 else .atom word

theorem IsName.letter_first {word : String} (named : IsName word) :
    ∃ c rest, word.toList = c :: rest ∧ c.isAlpha := by
  obtain ⟨_, letters, digits, split, some, alpha, _⟩ := named
  cases letters with
  | nil => exact absurd rfl some
  | cons c rest => exact ⟨c, rest ++ digits, by simpa using split, alpha c (by simp)⟩

theorem IsName.ne_zero {word : String} (named : IsName word) : word ≠ "0" := by
  rintro rfl
  obtain ⟨c, rest, split, alpha⟩ := named.letter_first
  have first : c = '0' := by simpa using (congrArg List.head? split).symm
  subst first
  exact absurd alpha (by decide)

theorem IsName.ne_one {word : String} (named : IsName word) : word ≠ "1" := by
  rintro rfl
  obtain ⟨c, rest, split, alpha⟩ := named.letter_first
  have first : c = '1' := by simpa using (congrArg List.head? split).symm
  subst first
  exact absurd alpha (by decide)

theorem leaf_of_isName {word : String} (named : IsName word) : leaf word = .atom word := by
  simp [leaf, named.ne_zero, named.ne_one]

-- A word is a name exactly when it falls into letters, of which there are some, and digits.
theorem isName_iff {word : String} : IsName word ↔
    isReserved word = false ∧ word.toList.takeWhile Char.isAlpha ≠ [] ∧
      (word.toList.dropWhile Char.isAlpha).dropWhile Char.isDigit = [] := by
  constructor
  · intro given
    obtain ⟨free, letters, digits, split, some, alpha, digit⟩ := given
    have ends : ∀ c ∈ digits.head?, c.isAlpha = false := fun c member =>
      not_isAlpha_of_isDigit (digit c (List.mem_of_head? member))
    obtain ⟨taken, dropped⟩ := takeWhile_append_eq alpha ends
    rw [split, taken, dropped]
    exact ⟨free, some, List.dropWhile_eq_nil_iff.mpr digit⟩
  · intro given
    obtain ⟨free, some, noMore⟩ := given
    refine ⟨free, _, _, List.takeWhile_append_dropWhile.symm, some, ?_, ?_⟩
    · intro c member
      exact List.mem_takeWhile_imp member
    · exact List.dropWhile_eq_nil_iff.mp noMore

theorem read_of_isName {word : String} (named : IsName word) : read word = .ok (.atom word) := by
  obtain ⟨free, some, noMore⟩ := isName_iff.mp named
  simp [read, noMore, some, free]

theorem read_of_isLeaf {word : String} (sound : IsLeaf word) : read word = .ok (leaf word) := by
  rcases sound with named | rfl | rfl
  · rw [read_of_isName named, leaf_of_isName named]
  · rfl
  · rfl

theorem isLeaf_of_read {word : String} {e : Expr} (found : read word = .ok e) : IsLeaf word := by
  have whole : word.toList.takeWhile Char.isAlpha ++ word.toList.dropWhile Char.isAlpha
      = word.toList := List.takeWhile_append_dropWhile
  unfold read at found
  dsimp only at found
  split at found
  · cases found
  · rename_i noMore
    split at found
    · rename_i noLetters
      have noLetters := List.isEmpty_iff.mp noLetters
      have digits := List.takeWhile_append_dropWhile (p := Char.isDigit)
        (l := word.toList.dropWhile Char.isAlpha)
      rw [noLetters, List.nil_append] at whole
      rw [noMore, List.append_nil, whole] at digits
      rw [whole] at found
      split at found
      · rename_i single
        exact .inr (.inl (String.toList_inj.mp (digits.symm.trans single)))
      · rename_i single
        exact .inr (.inr (String.toList_inj.mp (digits.symm.trans single)))
      · cases found
    · rename_i some
      split at found
      · cases found
      · rename_i free
        exact .inl (isName_iff.mpr ⟨by simpa using free, by simpa using some, noMore⟩)

theorem read_eq_ok_iff {word : String} {e : Expr} :
    read word = .ok e ↔ IsLeaf word ∧ e = leaf word := by
  constructor
  · intro found
    have sound := isLeaf_of_read found
    rw [read_of_isLeaf sound] at found
    exact ⟨sound, (Except.ok.inj found).symm⟩
  · intro given
    obtain ⟨sound, rfl⟩ := given
    exact read_of_isLeaf sound

theorem alphanum_of_isLeaf {word : String} (sound : IsLeaf word) :
    ∀ c ∈ word.toList, c.isAlphanum := by
  rcases sound with ⟨_, letters, digits, split, _, alpha, digit⟩ | rfl | rfl
  · intro c member
    rw [split, List.mem_append] at member
    rcases member with front | back
    · simp [Char.isAlphanum, alpha c front]
    · simp [Char.isAlphanum, digit c back]
  · exact List.all_eq_true.mp (by decide)
  · exact List.all_eq_true.mp (by decide)

theorem ne_empty_of_isLeaf {word : String} (sound : IsLeaf word) : word.toList ≠ [] := by
  rcases sound with named | rfl | rfl
  · obtain ⟨c, rest, split, _⟩ := named.letter_first
    simp [split]
  · decide
  · decide

end Word

end TruthTables

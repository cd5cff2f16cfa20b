import TruthTables.Formula.Error
import TruthTables.Proofs.Words

namespace TruthTables

namespace Word

variable {word name : String} {chars front letters digits : List Char}

def IsPlain (chars : List Char) : Prop :=
  ∃ letters digits : List Char, chars = letters ++ digits ∧
    (∀ c ∈ letters, c.isAlpha) ∧ ∀ c ∈ digits, c.isDigit

theorem isPlain_iff :
    IsPlain chars ↔ (chars.dropWhile Char.isAlpha).dropWhile Char.isDigit = [] := by
  constructor
  · rintro ⟨letters, digits, rfl, alpha, digit⟩
    have ends : ∀ c ∈ digits.head?, c.isAlpha = false := fun c member =>
      not_isAlpha_of_isDigit (digit c (List.mem_of_head? member))
    rw [(takeWhile_append_eq alpha ends).2]
    exact List.dropWhile_eq_nil_iff.mpr digit
  · intro noMore
    refine ⟨_, _, List.takeWhile_append_dropWhile.symm, ?_, List.dropWhile_eq_nil_iff.mp noMore⟩
    intro c member
    exact List.mem_takeWhile_imp member

theorem IsPlain.of_prefix (plain : IsPlain chars) (begins : front <+: chars) : IsPlain front := by
  obtain ⟨letters, digits, rfl, alpha, digit⟩ := plain
  rcases List.prefix_or_prefix_of_prefix begins (List.prefix_append letters digits) with
    within | ⟨more, rfl⟩
  · exact ⟨front, [], by simp, fun c member => alpha c (within.subset member), nofun⟩
  · have within := (List.prefix_append_right_inj letters).mp begins
    exact ⟨letters, more, rfl, alpha, fun c member => digit c (within.subset member)⟩

theorem IsName.isPlain (named : IsName word) : IsPlain word.toList := by
  obtain ⟨_, letters, digits, split, _, alpha, digit⟩ := named
  exact ⟨letters, digits, split, alpha, digit⟩

-- Letters, digits, and then a character that neither of the two runs could take in.
theorem losesAt_of_split {c : Char} {rest : List Char} (alpha : ∀ x ∈ letters, x.isAlpha)
    (digit : ∀ x ∈ digits, x.isDigit) (ends : ∀ x ∈ (digits ++ c :: rest).head?, x.isAlpha = false)
    (other : c.isDigit = false) :
    LosesAt IsPlain (letters ++ (digits ++ c :: rest)) (letters ++ digits ++ [c]) where
  begins := ⟨rest, by simp⟩
  lacks := by
    have early : ∀ x ∈ (digits ++ [c]).head?, x.isAlpha = false := by
      cases digits with
      | nil => simpa using ends
      | cons d more => simpa using ends
    rw [isPlain_iff, List.append_assoc, (takeWhile_append_eq alpha early).2,
      (takeWhile_append_eq digit (by simpa using other)).2]
    simp
  shortest := by
    intro front begins shorter
    rcases List.prefix_concat_iff.mp begins with same | within
    · exact absurd same shorter
    · exact IsPlain.of_prefix ⟨letters, digits, rfl, alpha, digit⟩ within

theorem read_of_not_isPlain (faulty : ¬IsPlain word.toList) :
    ∃ part : String, LosesAt IsPlain word.toList part.toList ∧
      read word = .error (.malformed part) := by
  have front : word.toList.takeWhile Char.isAlpha ++ word.toList.dropWhile Char.isAlpha =
      word.toList := List.takeWhile_append_dropWhile
  have ends := head?_dropWhile_not (p := Char.isAlpha) word.toList
  generalize afterLetters : word.toList.dropWhile Char.isAlpha = back at front ends
  cases left : back.dropWhile Char.isDigit with
  | nil => exact absurd (isPlain_iff.mpr (afterLetters ▸ left)) faulty
  | cons c rest =>
    have split : back.takeWhile Char.isDigit ++ c :: rest = back :=
      left ▸ List.takeWhile_append_dropWhile
    have other : c.isDigit = false := head?_dropWhile_not back c (by rw [left]; rfl)
    refine ⟨.ofList (word.toList.takeWhile Char.isAlpha ++ back.takeWhile Char.isDigit ++ [c]),
      ?_, ?_⟩
    · have alpha : ∀ x ∈ word.toList.takeWhile Char.isAlpha, x.isAlpha :=
        fun _ => List.mem_takeWhile_imp
      have digit : ∀ x ∈ back.takeWhile Char.isDigit, x.isDigit := fun _ => List.mem_takeWhile_imp
      rw [← split] at ends
      have found := losesAt_of_split alpha digit ends other
      rw [split, front] at found
      rwa [String.toList_ofList]
    · simp [read, afterLetters, left]

theorem error_of_isPlain {error : WordError} (plain : IsPlain word.toList)
    (failed : read word = .error error) : error = .malformed word ∨
      error = .reserved word ∧ (word = resultTitle ∨ word = weightTitle) := by
  unfold read at failed
  dsimp only at failed
  rw [isPlain_iff.mp plain] at failed
  dsimp only at failed
  split at failed
  · split at failed
    · cases failed
    · cases failed
    · cases failed
      exact .inl rfl
  · split at failed
    · rename_i reserved
      cases failed
      exact .inr ⟨rfl, by simpa [isReserved] using reserved⟩
    · cases failed

theorem leaf_eq_const_iff {value : Int} : leaf word = .const value ↔
    word = "0" ∧ value = 0 ∨ word = "1" ∧ value = 1 := by
  unfold leaf
  split
  · simp_all [eq_comm]
  · split <;> simp_all [eq_comm]

theorem read_eq_zero_iff : read word = .ok (.const 0) ↔ word = "0" := by
  constructor
  · intro found
    have same := (read_eq_ok_iff.mp found).2
    simpa using leaf_eq_const_iff.mp same.symm
  · rintro rfl
    rfl

theorem read_eq_one_iff : read word = .ok (.const 1) ↔ word = "1" := by
  constructor
  · intro found
    have same := (read_eq_ok_iff.mp found).2
    simpa using leaf_eq_const_iff.mp same.symm
  · rintro rfl
    rfl

theorem read_eq_atom_iff : read word = .ok (.atom name) ↔ IsName word ∧ name = word := by
  constructor
  · intro found
    obtain ⟨named | rfl | rfl, same⟩ := read_eq_ok_iff.mp found
    · rw [leaf_of_isName named] at same
      exact ⟨named, Expr.atom.inj same⟩
    · cases same
    · cases same
  · rintro ⟨named, rfl⟩
    exact read_of_isName named

theorem exists_error_of_not_isLeaf (other : ¬IsLeaf word) : ∃ error, read word = .error error := by
  cases outcome : read word with
  | error error => exact ⟨error, rfl⟩
  | ok leaf => exact absurd (isLeaf_of_read outcome) other

section Digits

theorem digitChar_of_isDigit {c : Char} (digit : c.isDigit) :
    Nat.digitChar (c.toNat - '0'.toNat) = c ∧ c.toNat - '0'.toNat < 10 := by
  have zero : '0'.toNat = 48 := rfl
  have first : '0'.val.toNat = 48 := rfl
  have last : '9'.val.toNat = 57 := rfl
  have code : c.toNat = c.val.toNat := rfl
  simp only [Char.isDigit, Bool.and_eq_true, decide_eq_true_eq, UInt32.le_iff_toNat_le] at digit
  have small : c.toNat - '0'.toNat < 10 := by omega
  refine ⟨Char.toNat_inj.mp ?_, small⟩
  rw [Nat.toNat_digitChar_of_lt_ten small]
  omega

-- The recursion goes from the first digit on, the library's from the last one.
theorem decimal_eq_ofDigits (digits : List Char) :
    decimal digits = Nat.ofDigits 10 (digits.map fun c => c.toNat - '0'.toNat).reverse := by
  induction digits using List.reverseRecOn with
  | nil => rfl
  | append_singleton front c ih =>
    rw [decimal, List.foldl_append, List.map_append, List.reverse_append]
    simp only [List.foldl_cons, List.foldl_nil, List.map_cons, List.map_nil, List.reverse_singleton,
      List.singleton_append, Nat.ofDigits_cons, ← ih]
    rw [decimal]
    omega

theorem decimal_lt (digit : ∀ c ∈ digits, c.isDigit) : decimal digits < 10 ^ digits.length := by
  have small := Nat.ofDigits_lt_base_pow_length (b := 10)
    (l := (digits.map fun c => c.toNat - '0'.toNat).reverse) (by decide) (by
      intro value member
      obtain ⟨c, within, rfl⟩ := List.mem_map.mp (List.mem_reverse.mp member)
      exact (digitChar_of_isDigit (digit c within)).2)
  rwa [← decimal_eq_ofDigits, List.length_reverse, List.length_map] at small

theorem toDigits_foldl {value : Nat} (positive : 0 < value) (digit : ∀ c ∈ digits, c.isDigit) :
    Nat.toDigits 10 (Nat.ofDigitChars 10 digits value) = Nat.toDigits 10 value ++ digits := by
  induction digits generalizing value with
  | nil => simp
  | cons c rest ih =>
    obtain ⟨written, small⟩ := digitChar_of_isDigit (digit c (by simp))
    rw [Nat.ofDigitChars_cons, ih (by omega) fun x member => digit x (by simp [member]),
      ← Nat.toDigits_append_toDigits (by decide) positive small, Nat.toDigits_of_lt_base small,
      written, List.append_assoc, List.singleton_append]

theorem toDigits_decimal_iff (some : digits ≠ []) (digit : ∀ c ∈ digits, c.isDigit) :
    Nat.toDigits 10 (decimal digits) = digits ↔
      digits = ['0'] ∨ digits.head? ≠ .some '0' := by
  cases digits with
  | nil => exact absurd rfl some
  | cons c rest =>
    have later : ∀ x ∈ rest, x.isDigit := fun x member => digit x (by simp [member])
    by_cases zero : c = '0'
    · subst zero
      cases rest with
      | nil => simp [decimal]
      | cons d more =>
        have skipped : decimal ('0' :: d :: more) = decimal (d :: more) := rfl
        -- Too few digits are written to give the zero back.
        have short : (Nat.toDigits 10 (decimal (d :: more))).length ≤ (d :: more).length :=
          (Nat.length_toDigits_le_iff (by decide) (by simp)).mpr (decimal_lt later)
        constructor
        · intro same
          rw [skipped] at same
          rw [same] at short
          simp at short
        · simp
    · obtain ⟨written, small⟩ := digitChar_of_isDigit (digit c (by simp))
      have positive : 0 < c.toNat - '0'.toNat := by
        by_contra none
        rw [Nat.eq_zero_of_not_pos none] at written
        exact zero written.symm
      have begun : decimal (c :: rest) = Nat.ofDigitChars 10 rest (c.toNat - '0'.toNat) := by
        simp [decimal, Nat.ofDigitChars_eq_foldl]
      rw [begun, toDigits_foldl positive later, Nat.toDigits_of_lt_base small, written]
      simp [zero]

end Digits

structure Numbered (name : String) (digits : List Char) : Prop where
  lettered : Word.letters name ≠ ""
  alpha : ∀ c ∈ (Word.letters name).toList, c.isAlpha
  digit : ∀ c ∈ digits, c.isDigit
  whole : name = Word.letters name ++ .ofList digits
  unnumbered : suffix? name = .ok none ↔ digits = []
  value : digits ≠ [] → digits.length ≤ mostDigits → suffix? name =
    .ok (some (Nat.ofDigits 10 (digits.map fun c => c.toNat - '0'.toNat).reverse))
  unread : mostDigits < digits.length → suffix? name = .error (.tooLongToRead digits.length)
  restored : digits.length ≤ mostDigits → ∃ number, suffix? name = .ok number ∧
    (Word.letters name ++ (number.map toString).getD "" = name ↔
      digits = [] ∨ digits = ['0'] ∨ digits.head? ≠ some '0')

theorem letters_and_suffix?_eq (split : name.toList = letters ++ digits)
    (alpha : ∀ c ∈ letters, c.isAlpha) (digit : ∀ c ∈ digits, c.isDigit) :
    Word.letters name = .ofList letters ∧
      suffix? name =
        if digits = [] then .ok none
        else if mostDigits < digits.length then .error (.tooLongToRead digits.length)
        else .ok (some (decimal digits)) := by
  have within : ∀ c ∈ digits.reverse, c.isDigit := fun c member =>
    digit c (List.mem_reverse.mp member)
  have ends : ∀ c ∈ letters.reverse.head?, c.isDigit = false := by
    intro c head
    by_contra number
    have letter := alpha c (List.mem_reverse.mp (List.mem_of_head? head))
    rw [not_isAlpha_of_isDigit (by simpa using number)] at letter
    cases letter
  obtain ⟨taken, dropped⟩ := takeWhile_append_eq within ends
  constructor
  · rw [Word.letters, split, List.reverse_append, dropped, List.reverse_reverse]
  · rw [suffix?, split, List.reverse_append, taken]
    cases digits using List.reverseRecOn with
    | nil => rfl
    | append_singleton front c => simp

theorem IsName.numbered (named : IsName name) : ∃ digits, Numbered name digits := by
  obtain ⟨_, letters, digits, split, some, alpha, digit⟩ := named
  obtain ⟨front, number⟩ := letters_and_suffix?_eq split alpha digit
  have whole : name = .ofList letters ++ .ofList digits := by
    rw [← String.ofList_append, ← split, String.ofList_toList]
  refine ⟨digits, ?_, ?_, digit, ?_, ?_, ?_, ?_, ?_⟩
  · simpa [front] using some
  · simpa [front] using alpha
  · rw [front]
    exact whole
  · rw [number]
    split
    · simpa
    · split <;> simpa
  · intro any fits
    rw [number, if_neg any, if_neg (Nat.not_lt.mpr fits), decimal_eq_ofDigits]
  · intro exceeds
    rw [number, if_neg (List.ne_nil_of_length_pos (Nat.zero_lt_of_lt exceeds)), if_pos exceeds]
  · intro fits
    by_cases none : digits = []
    · refine ⟨_, by rw [number, if_pos none], ?_⟩
      rw [front, whole, none]
      simp
    · have same : String.ofList letters ++ toString (decimal digits) = name ↔
          Nat.toDigits 10 (decimal digits) = digits := by
        rw [whole, ← String.toList_inj]
        simp
      refine ⟨_, by rw [number, if_neg none, if_neg (Nat.not_lt.mpr fits)], ?_⟩
      rw [front, Option.map_some, Option.getD_some, same, toDigits_decimal_iff none digit]
      simp [none]

theorem suffix?_of_many {count : Nat} (many : mostDigits < count) :
    let name := "x" ++ String.ofList (List.replicate count '1')
    read name = .ok (.atom name) ∧ suffix? name = .error (.tooLongToRead count) := by
  intro name
  have split : name.toList = ['x'] ++ List.replicate count '1' := by simp [name]
  have alpha : ∀ c ∈ ['x'], c.isAlpha := List.forall_mem_singleton.mpr rfl
  have digit : ∀ c ∈ List.replicate count '1', c.isDigit := fun c member =>
    (List.mem_replicate.mp member).2 ▸ rfl
  have begins {title : String} (other : title.toList.head? ≠ some 'x') : name ≠ title := by
    rintro rfl
    exact other (by rw [split]; rfl)
  have free : isReserved name = false := by
    have result : name ≠ resultTitle := begins (by decide)
    have weight : name ≠ weightTitle := begins (by decide)
    simp [isReserved, result, weight]
  have some : List.replicate count '1' ≠ [] := by
    apply List.ne_nil_of_length_pos
    rw [List.length_replicate]
    exact Nat.zero_lt_of_lt many
  refine ⟨read_of_isName ⟨free, _, _, split, by simp, alpha, digit⟩, ?_⟩
  rw [(letters_and_suffix?_eq split alpha digit).2, List.length_replicate, if_neg some,
    if_pos many]

end Word

theorem words_are_classified (word : String) :
    (Word.read word = .ok (.const 0) ↔ word = "0") ∧
    (Word.read word = .ok (.const 1) ↔ word = "1") ∧
    (Word.read word = .ok (.atom word) ↔ Word.IsName word) ∧
    (¬(word = "0" ∨ word = "1" ∨ Word.IsName word) → ∃ error, Word.read word = .error error) ∧
    (¬Word.IsPlain word.toList → ∃ (part : String) (error : WordError),
      LosesAt Word.IsPlain word.toList part.toList ∧ Word.read word = .error error ∧
        error.message = "Invalid atomic '" ++ part ++ "'") ∧
    ∀ name, Word.read word = .ok (.atom name) →
      name = word ∧ ∃ digits, Word.Numbered name digits := by
  refine ⟨Word.read_eq_zero_iff, Word.read_eq_one_iff, ?_, ?_, ?_, ?_⟩
  · rw [Word.read_eq_atom_iff]
    exact and_iff_left rfl
  · intro other
    refine Word.exists_error_of_not_isLeaf ?_
    rintro (named | zero | one)
    · exact other (.inr (.inr named))
    · exact other (.inl zero)
    · exact other (.inr (.inl one))
  · intro faulty
    obtain ⟨part, first, failed⟩ := Word.read_of_not_isPlain faulty
    exact ⟨part, _, first, failed, rfl⟩
  · intro name found
    obtain ⟨named, rfl⟩ := Word.read_eq_atom_iff.mp found
    exact ⟨rfl, named.numbered⟩

-- A number that is no constant, letters on both sides of a number, and a name whose digits are more
-- than its number needs.
theorem words_are_classified_superfluous_zeros :
    (¬("10" = "0" ∨ "10" = "1" ∨ Word.IsName "10") ∧ ∃ error, Word.read "10" = .error error) ∧
    (¬Word.IsPlain "ab12cd".toList ∧ ∃ (part : String) (error : WordError),
      LosesAt Word.IsPlain "ab12cd".toList part.toList ∧ Word.read "ab12cd" = .error error ∧
        error.message = "Invalid atomic '" ++ part ++ "'") ∧
    Word.read "x007" = .ok (.atom "x007") ∧
      "x007" = "x007" ∧ ∃ digits, Word.Numbered "x007" digits := by
  have number : ¬("10" = "0" ∨ "10" = "1" ∨ Word.IsName "10") := by
    rw [Word.isName_iff]
    decide
  have mixed : ¬Word.IsPlain "ab12cd".toList := by
    rw [Word.isPlain_iff]
    decide
  have named : Word.read "x007" = .ok (.atom "x007") := rfl
  exact ⟨⟨number, (words_are_classified "10").2.2.2.1 number⟩,
    ⟨mixed, (words_are_classified "ab12cd").2.2.2.2.1 mixed⟩,
    named, (words_are_classified "x007").2.2.2.2.2 "x007" named⟩

theorem digits_of_a_name_may_be_too_many :
    let name := "x" ++ String.ofList (List.replicate 4301 '1')
    Word.read name = .ok (.atom name) ∧ Word.suffix? name = .error (.tooLongToRead 4301) :=
  Word.suffix?_of_many (by decide)

end TruthTables

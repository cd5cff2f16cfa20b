import TruthTables.Formula.Parser
import TruthTables.Proofs.Scanning

namespace TruthTables

namespace Text

theorem solid_append_cons {front back : List Char} {c : Char} (kept : ¬isBlank c) :
    solid (front ++ c :: back) = solid front ++ c :: solid back := by
  rw [solid_append, solid, solid, solid, List.filter_cons_of_pos (by simpa using kept)]

theorem exists_split_of_solid {front back other : List Char} {c : Char}
    (same : solid other = solid front ++ c :: solid back) :
    ∃ start rest, other = start ++ c :: rest ∧ solid start = solid front := by
  obtain ⟨start, later, rfl, kept, laterKept⟩ := List.filter_eq_append_iff.mp same
  obtain ⟨gap, rest, rfl, dropped, _, _⟩ := List.filter_eq_cons_iff.mp laterKept
  have gone : solid gap = [] := List.filter_eq_nil_iff.mpr dropped
  refine ⟨start ++ gap, rest, by simp, ?_⟩
  rw [solid_append, gone, List.append_nil]
  exact kept

end Text

namespace Lexer

theorem length_solidPositions (text : List Char) :
    (solidPositions text).length = (Text.solid text).length := by
  have spelled : Text.solid text =
      (text.zipIdx.filter fun entry => !Text.isBlank entry.1).map (·.1) := by
    rw [Text.solid, ← List.zipIdx_map_fst 0 text, List.filter_map]
    simp [Function.comp_def]
  rw [spelled, solidPositions, List.length_map, List.length_map]

-- The place of a character among those that are not blank leads back to its place in the text.
theorem getElem?_solidPositions {front back : List Char} {c : Char} (kept : ¬Text.isBlank c) :
    (solidPositions (front ++ c :: back))[(Text.solid front).length]? = some front.length := by
  have split : ∃ later, solidPositions (front ++ c :: back) =
      solidPositions front ++ front.length :: later :=
    ⟨_, by simp [solidPositions, List.zipIdx_append, kept]; rfl⟩
  obtain ⟨later, split⟩ := split
  rw [split, ← length_solidPositions, List.getElem?_append_right (Nat.le_refl _), Nat.sub_self]
  rfl

theorem not_passes_of_not_known {c : Char} (foreign : ¬Known c) : ¬Passes c := by
  intro passes
  rcases passes with gap | known
  · exact foreign (.inl (isBlank_of_isGap (isGap_iff.mpr gap)))
  · exact foreign (.inr known)

theorem tokenize_of_isFirst {text : String} {illegal : Illegal}
    (first : illegal.IsFirst Known text.toList) : tokenize text = .error illegal := by
  obtain ⟨front, back, split, place, known⟩ := first.exists_append
  have kept : ¬Text.isBlank illegal.char := fun blank => first.refused (.inl blank)
  have found := scan_append (Text.solid back) (not_passes_of_not_known first.refused) 0
    fun x member => .inr (known_iff_solid.mp known x member)
  simp only [tokenize, split, Text.solid_append_cons kept, found, Nat.zero_add,
    getElem?_solidPositions kept, Option.getD_some, ← place]

theorem exists_isFirst_of_solid_eq {text other : List Char} {illegal : Illegal}
    (first : illegal.IsFirst Known text) (same : Text.solid text = Text.solid other) :
    ∃ position, Illegal.IsFirst ⟨illegal.char, position⟩ Known other := by
  obtain ⟨front, back, rfl, _, known⟩ := first.exists_append
  have kept : ¬Text.isBlank illegal.char := fun blank => first.refused (.inl blank)
  rw [Text.solid_append_cons kept] at same
  obtain ⟨start, rest, rfl, alike⟩ := Text.exists_split_of_solid same.symm
  refine ⟨start.length, Illegal.isFirst_append rest (known_iff_solid.mpr ?_) first.refused⟩
  rw [alike]
  exact known_iff_solid.mp known

end Lexer

theorem parse_of_isFirst {text : String} {illegal : Illegal}
    (first : illegal.IsFirst Lexer.Known text.toList) :
    parse text = .error (.illegal illegal.char illegal.position) := by
  rw [parse, Lexer.tokenize_of_isFirst first]

theorem parse_eq_of_solid_eq {text other : String}
    (same : Text.solid text.toList = Text.solid other.toList)
    (known : ∀ c ∈ Text.solid text.toList, Token.InAlphabet c) : parse text = parse other := by
  have found := Lexer.tokenize_of_inAlphabet known
  rw [same] at found known
  rw [parse, parse, found, Lexer.tokenize_of_inAlphabet known]

theorem blanks_do_not_matter (text : String) :
    (∀ other : String, Text.solid text.toList = Text.solid other.toList →
      (∃ lexemes, Lexer.tokenize text = .ok lexemes ∧ Lexer.tokenize other = .ok lexemes ∧
        parse text = parse other) ∨
      ∃ c position otherPosition,
        Illegal.IsFirst ⟨c, position⟩ Lexer.Known text.toList ∧
        Illegal.IsFirst ⟨c, otherPosition⟩ Lexer.Known other.toList ∧
        Lexer.tokenize text = .error ⟨c, position⟩ ∧
        Lexer.tokenize other = .error ⟨c, otherPosition⟩ ∧
        parse text = .error (.illegal c position) ∧
        parse other = .error (.illegal c otherPosition)) ∧
    ((∃ c ∈ text.toList, ¬Lexer.Known c) →
      ∃ c position, Illegal.IsFirst ⟨c, position⟩ Lexer.Known text.toList ∧
        Lexer.tokenize text = .error ⟨c, position⟩ ∧
        parse text = .error (.illegal c position) ∧
        (FormulaError.illegal c position).message = "Illegal character '" ++ c.toString ++
          "' encountered at position " ++ toString position) := by
  constructor
  · intro other same
    rcases all_or_exists_isFirst Lexer.Known text.toList with all | ⟨illegal, first⟩
    · have within := Lexer.known_iff_solid.mp all
      have found := Lexer.tokenize_of_inAlphabet within
      rw [same] at found within
      have otherFound := Lexer.tokenize_of_inAlphabet within
      exact .inl ⟨_, found, otherFound, by rw [parse, parse, found, otherFound]⟩
    · obtain ⟨position, otherFirst⟩ := Lexer.exists_isFirst_of_solid_eq first same
      exact .inr ⟨_, _, position, first, otherFirst, Lexer.tokenize_of_isFirst first,
        Lexer.tokenize_of_isFirst otherFirst, parse_of_isFirst first, parse_of_isFirst otherFirst⟩
  · intro given
    obtain ⟨c, member, foreign⟩ := given
    rcases all_or_exists_isFirst Lexer.Known text.toList with all | ⟨illegal, first⟩
    · exact absurd (all c member) foreign
    · exact ⟨_, _, first, Lexer.tokenize_of_isFirst first, parse_of_isFirst first, rfl⟩

theorem blanks_do_not_matter_within_a_name :
    parse "(x 1>\ny)" = parse "(x1>y)" ∧
      ∃ c position, Illegal.IsFirst ⟨c, position⟩ Lexer.Known ")x @".toList ∧
        parse ")x @" = .error (.illegal c position) := by
  have same : Text.solid "(x 1>\ny)".toList = Text.solid "(x1>y)".toList := by cbv
  have accepted : parse "(x1>y)" =
      .ok ⟨.binary .implies (.atom "x1") (.atom "y"), ["x1", "y"]⟩ := by cbv
  have foreign : ∃ c ∈ ")x @".toList, ¬Lexer.Known c :=
    ⟨'@', by simp, by simp [Lexer.Known, Text.isBlank, Token.InAlphabet]⟩
  obtain ⟨c, position, first, _, refused, _⟩ := (blanks_do_not_matter ")x @").2 foreign
  refine ⟨?_, c, position, first, refused⟩
  rcases (blanks_do_not_matter _).1 _ same with
    ⟨_, _, _, alike⟩ | ⟨c, _, _, _, _, _, _, _, otherRefused⟩
  · exact alike
  · rw [accepted] at otherRefused
    cases otherRefused

end TruthTables

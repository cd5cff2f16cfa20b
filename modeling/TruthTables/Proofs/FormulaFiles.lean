import TruthTables.Proofs.Blanks
import TruthTables.Proofs.Verbosity

namespace TruthTables

section Trimming

variable {text : List Char}

theorem Text.exists_trim (text : List Char) :
    ∃ back, text = text.takeWhile isBlank ++ (trim text ++ back) ∧ ∀ c ∈ back, isBlank c := by
  refine ⟨((text.dropWhile isBlank).reverse.takeWhile isBlank).reverse, ?_, ?_⟩
  · rw [trim, ← List.reverse_append, List.takeWhile_append_dropWhile, List.reverse_reverse,
      List.takeWhile_append_dropWhile]
  · intro c member
    exact List.mem_takeWhile_imp (List.mem_reverse.mp member)

theorem Text.solid_of_blank (blank : ∀ c ∈ text, isBlank c) : solid text = [] :=
  List.filter_eq_nil_iff.mpr fun c member => by simpa using blank c member

theorem Text.solid_trim (text : List Char) : solid (trim text) = solid text := by
  obtain ⟨back, split, blank⟩ := exists_trim text
  have front : solid (text.takeWhile isBlank) = [] :=
    solid_of_blank fun c member => List.mem_takeWhile_imp member
  conv_rhs => rw [split, solid_append, solid_append, front, solid_of_blank blank]
  simp

def Text.indent (text : List Char) : Nat := (text.takeWhile isBlank).length

theorem Illegal.IsFirst.of_trim {c : Char} {position : Nat}
    (first : IsFirst ⟨c, position⟩ Lexer.Known (Text.trim text)) :
    IsFirst ⟨c, Text.indent text + position⟩ Lexer.Known text := by
  obtain ⟨back, split, _⟩ := Text.exists_trim text
  obtain ⟨front, rest, trimmed, place, known⟩ := first.exists_append
  dsimp only at place
  have whole : text = (text.takeWhile Text.isBlank ++ front) ++ c :: (rest ++ back) := by
    conv_lhs => rw [split, trimmed]
    simp
  have earlier : ∀ x ∈ text.takeWhile Text.isBlank ++ front, Lexer.Known x := by
    refine List.forall_mem_append.mpr ⟨fun x member => .inl ?_, known⟩
    exact List.mem_takeWhile_imp member
  have found := Illegal.isFirst_append (rest ++ back) earlier first.refused
  rwa [← whole, List.length_append, ← place] at found

theorem parse_ofList_of_isFirst {illegal : Illegal} (first : illegal.IsFirst Lexer.Known text) :
    parse (String.ofList text) = .error (.illegal illegal.char illegal.position) :=
  parse_of_isFirst (by rwa [String.toList_ofList])

-- Blanks at the ends do not matter, except that places are counted from the first character on.
theorem parse_trim (text : List Char) :
    parse (String.ofList text) = parse (String.ofList (Text.trim text)) ∨
      ∃ c position,
        parse (String.ofList (Text.trim text)) = .error (.illegal c position) ∧
        parse (String.ofList text) = .error (.illegal c (Text.indent text + position)) := by
  rcases all_or_exists_isFirst Lexer.Known (Text.trim text) with all | ⟨⟨c, position⟩, first⟩
  · left
    apply parse_eq_of_solid_eq
    · rw [String.toList_ofList, String.toList_ofList, Text.solid_trim]
    · rw [String.toList_ofList, ← Text.solid_trim]
      exact Lexer.known_iff_solid.mp all
  · right
    exact ⟨c, position, parse_ofList_of_isFirst first, parse_ofList_of_isFirst first.of_trim⟩

end Trimming

namespace FormulaFile

variable {openFile : Path → Opened} {path : Path} {text : List Char}

def Contains (openFile : Path → Opened) (path : Path) (text : List Char) : Prop :=
  Char.ofNat 0 ∉ path.text.toList ∧ ∃ bytes chars, openFile path = .bytes bytes ∧
    Text.decodeUtf8 bytes = .ok chars ∧ text = Text.unifyLineEnds chars

theorem Contains.holds (contained : Contains openFile path text)
    (solid : ∃ c ∈ text, ¬Text.isBlank c) :
    Holds openFile path (String.ofList (Text.trim text)) := by
  obtain ⟨whole, bytes, chars, opened, decoded, rfl⟩ := contained
  refine .solid whole opened decoded fun blank => ?_
  obtain ⟨c, member, other⟩ := solid
  exact other (Text.blank_unifyLineEnds_iff.mpr blank c member)

theorem unavailable_of_blank
    (blank : ∀ text, Contains openFile path text → ∀ c ∈ text, Text.isBlank c) :
    Unavailable openFile path := by
  rcases holds_or_unavailable openFile path with ⟨_, held⟩ | unavailable
  · cases held with
    | solid whole opened decoded solid =>
      have all := blank _ ⟨whole, _, _, opened, decoded, rfl⟩
      exact absurd (Text.blank_unifyLineEnds_iff.mp all) solid
  · exact unavailable

end FormulaFile

namespace CommandLine

variable {convention : Convention} {openFile otherFiles : Path → Opened} {o other : Origin}
  {formula : String}
variable {full formsOnly quiet debug : Bool}

theorem run_eq_of_gives (given : o.Gives convention openFile formula)
    (otherGiven : other.Gives convention otherFiles formula) {j k : Journal} (sound : j.Sound)
    (otherSound : k.Sound) {arguments others : List String}
    (asked : read convention arguments = .ok (.run (o.options full formsOnly quiet debug)))
    (otherAsked : read convention others = .ok (.run (other.options full formsOnly quiet debug))) :
    (run convention openFile j arguments).1 = (run convention otherFiles k others).1 := by
  rw [run_eq sound asked, run_eq otherSound otherAsked, given.course_eq, otherGiven.course_eq,
    o.quiet_options, o.debug_options, other.quiet_options, other.debug_options]

theorem kept_error (quiet debug : Bool) (message : String) :
    kept quiet debug [.error message] = [.error message] := by
  cases debug <;> cases quiet <;> rfl

theorem run_of_error {message : String} {code : Nat}
    (ended : course convention openFile (o.options full formsOnly quiet debug) =
      ⟨[.error message], code⟩) {j : Journal} (sound : j.Sound) {arguments : List String}
    (asked : read convention arguments = .ok (.run (o.options full formsOnly quiet debug))) :
    (run convention openFile j arguments).1 = ⟨.returned code, lines [.error message]⟩ := by
  have reached : ∀ r ∈ [Record.error message], Level.debug ≤ r.level := by
    simp [Record.error, Level.debug, Level.error]
  rw [run_eq sound asked, ended, o.quiet_options, o.debug_options, kept_eq reached, kept_error]

-- What a formula in a file is to the runs on it.
structure ReadAsArgument (convention : Convention) (openFile : Path → Opened) (path : String)
    (text : List Char) (formula : String) : Prop where
  trimmed : formula = String.ofList (Text.trim text)
  same : ∀ full formsOnly quiet debug (otherFiles : Path → Opened) (j k : Journal) arguments others,
    j.Sound → k.Sound →
    read convention arguments = .ok (.run ((Origin.file path).options full formsOnly quiet debug)) →
    read convention others =
      .ok (.run ((Origin.argument formula).options full formsOnly quiet debug)) →
    (run convention openFile j arguments).1 = (run convention otherFiles k others).1
  possible : ∀ full formsOnly quiet debug, ∃ others,
    read convention others =
      .ok (.run ((Origin.argument formula).options full formsOnly quiet debug))
  parsed : parse (String.ofList text) = parse formula ∨
    ∃ c position, parse formula = .error (.illegal c position) ∧
      parse (String.ofList text) = .error (.illegal c (Text.indent text + position))

theorem files_are_read_as_arguments (convention : Convention) (openFile : Path → Opened)
    (path : String) :
    (path.toList.head? ≠ some '-' → ∀ full formsOnly quiet debug,
      read convention ((switches full formsOnly quiet debug).map switchName ++ ["-f", path]) =
        .ok (.run ((Origin.file path).options full formsOnly quiet debug))) ∧
    (convention.Takes path →
      (∀ text, FormulaFile.Contains openFile (Path.ofText path) text →
        (∃ c ∈ text, ¬Text.isBlank c) →
        ∃ formula, ReadAsArgument convention openFile path text formula) ∧
      ((∀ text, FormulaFile.Contains openFile (Path.ofText path) text →
          ∀ c ∈ text, Text.isBlank c) →
        ∃ error : FileError, ∀ full formsOnly quiet debug (j : Journal) arguments, j.Sound →
          read convention arguments =
            .ok (.run ((Origin.file path).options full formsOnly quiet debug)) →
          (run convention openFile j arguments).1 =
            ⟨.returned 3, lines [.error ("Formula file error: " ++ error.message)]⟩)) ∧
    (¬convention.Takes path → ∀ full formsOnly quiet debug (j : Journal) arguments, j.Sound →
      read convention arguments =
        .ok (.run ((Origin.file path).options full formsOnly quiet debug)) →
      (run convention openFile j arguments).1 = ⟨.returned 5, lines
        [.error "Unexpected error: expected str, bytes or os.PathLike object, not list"]⟩) := by
  refine ⟨read_letter, fun taken => ⟨fun text contained solid => ?_, fun blank => ?_⟩, ?_⟩
  · refine ⟨_, rfl, ?_, ?_, parse_trim text⟩
    · intro full formsOnly quiet debug otherFiles j k arguments others sound otherSound
      exact run_eq_of_gives (.file taken (contained.holds solid)) (.argument _) sound otherSound
    · intro full formsOnly quiet debug
      exact ⟨_, read_options (.argument _) full formsOnly quiet debug⟩
  · have failing : (Origin.file path).Fails convention openFile :=
      .file taken (FormulaFile.unavailable_of_blank blank)
    obtain ⟨error, ended⟩ := failing.course_eq
    refine ⟨error, fun full formsOnly quiet debug j arguments sound asked => ?_⟩
    exact run_of_error (ended full formsOnly quiet debug) sound asked
  · intro untaken full formsOnly quiet debug j arguments sound asked
    exact run_of_error (Origin.course_eq_of_not_takes untaken) sound asked

-- A file with two kinds of line ends around the formula, and a file that is not there.
theorem files_are_read_as_arguments_conjunction :
    let bytes : List UInt8 := [13, 10, 32, 40, 120, 0xe2, 0x80, 0xa2, 121, 41, 13]
    let text := "\n (x•y)\n".toList
    let openFile : Path → Opened := fun path =>
      if path = Path.ofText "formula.txt" then .bytes bytes else .missing
    (Convention.newer.Takes "formula.txt" ∧ Convention.newer.Takes "none.txt" ∧
      FormulaFile.Contains openFile (Path.ofText "formula.txt") text ∧
      (∃ c ∈ text, ¬Text.isBlank c) ∧
      ∀ text, FormulaFile.Contains openFile (Path.ofText "none.txt") text →
        ∀ c ∈ text, Text.isBlank c) ∧
    (run .newer openFile .empty ["--full", "-f", "formula.txt"]).1 =
      (run .newer openFile .empty ["(x•y)", "--full"]).1 ∧
    ∃ error : FileError, (run .newer openFile .empty ["--quiet", "-f", "none.txt"]).1 =
      ⟨.returned 3, lines [.error ("Formula file error: " ++ error.message)]⟩ := by
  intro bytes text openFile
  have taken := Convention.takes_newer "formula.txt"
  have otherTaken := Convention.takes_newer "none.txt"
  have contained : FormulaFile.Contains openFile (Path.ofText "formula.txt") text :=
    ⟨by decide +kernel, bytes, "\r\n (x•y)\r".toList, if_pos rfl, by cbv, by cbv⟩
  have solid : ∃ c ∈ text, ¬Text.isBlank c := ⟨'x', by decide, by decide⟩
  have missing : openFile (Path.ofText "none.txt") = .missing := if_neg (by decide +kernel)
  have blank : ∀ text, FormulaFile.Contains openFile (Path.ofText "none.txt") text →
      ∀ c ∈ text, Text.isBlank c := by
    rintro _ ⟨_, _, _, opened, _⟩
    rw [missing] at opened
    cases opened
  obtain ⟨asked, found, _⟩ := files_are_read_as_arguments .newer openFile "formula.txt"
  obtain ⟨formula, reading⟩ := (found taken).1 text contained solid
  have cut : Text.trim text = "(x•y)".toList := by decide +kernel
  have trimmed : formula = "(x•y)" := by rw [reading.trimmed, cut, String.ofList_toList]
  have given : read .newer ["(x•y)", "--full"] =
      .ok (.run ((Origin.argument formula).options true false false false)) := by
    rw [trimmed]
    cbv
  have named : read .newer ["--full", "-f", "formula.txt"] =
      .ok (.run ((Origin.file "formula.txt").options true false false false)) :=
    asked (by decide) true false false false
  have same := reading.same true false false false openFile .empty .empty _ _
    Journal.sound_empty Journal.sound_empty named given
  obtain ⟨otherAsked, failing, _⟩ := files_are_read_as_arguments .newer openFile "none.txt"
  obtain ⟨error, result⟩ := (failing otherTaken).2 blank
  have otherNamed : read .newer ["--quiet", "-f", "none.txt"] =
      .ok (.run ((Origin.file "none.txt").options false false true false)) :=
    otherAsked (by decide) false false true false
  have refused := result false false true false .empty _ Journal.sound_empty otherNamed
  exact ⟨⟨taken, otherTaken, contained, solid, blank⟩, same, error, refused⟩

-- The place of an illegal character in a file is told as if the file began with the formula.
theorem indent_moves_an_illegal_character :
    let openFile : Path → Opened := fun _ => .bytes [32, 32, 64, 10]
    let text := "  @\n".toList
    FormulaFile.Contains openFile (Path.ofText "formula.txt") text ∧
      (∃ c ∈ text, ¬Text.isBlank c) ∧ String.ofList (Text.trim text) = "@" ∧
      parse "@" = .error (.illegal '@' 0) ∧ parse "  @\n" = .error (.illegal '@' 2) ∧
      parse (String.ofList text) ≠ parse (String.ofList (Text.trim text)) := by
  intro openFile text
  have contained : FormulaFile.Contains openFile (Path.ofText "formula.txt") text :=
    ⟨by decide +kernel, _, text, rfl, by cbv, by cbv⟩
  have trimmed : String.ofList (Text.trim text) = "@" := by cbv
  have first : parse "@" = .error (.illegal '@' 0) := by cbv
  have whole : parse "  @\n" = .error (.illegal '@' 2) := by cbv
  refine ⟨contained, ⟨'@', by decide, by decide⟩, trimmed, first, whole, ?_⟩
  rw [trimmed, first, String.ofList_toList, whole]
  intro same
  cases same

end CommandLine

end TruthTables

import TruthTables.CommandLine.Run
import TruthTables.Proofs.Words

namespace TruthTables

namespace Text

theorem trim_eq_nil_iff {text : List Char} : trim text = [] ↔ ∀ c ∈ text, isBlank c := by
  simp only [trim, List.reverse_eq_nil_iff, List.dropWhile_eq_nil_iff, List.mem_reverse]
  constructor
  · intro blank
    rw [← List.dropWhile_eq_nil_iff]
    cases left : text.dropWhile isBlank with
    | nil => rfl
    | cons c rest =>
      have stops := TruthTables.head?_dropWhile_not text c (by rw [left]; rfl)
      have within := blank c (by rw [left]; exact List.mem_cons_self ..)
      rw [stops] at within
      cases within
  · intro blank c member
    exact blank c ((List.dropWhile_suffix _).subset member)

theorem blank_unifyLineEnds_iff {text : List Char} :
    (∀ c ∈ unifyLineEnds text, isBlank c) ↔ ∀ c ∈ text, isBlank c := by
  have lineFeed : isBlank '\n' := by decide
  have carriageReturn : isBlank '\r' := by decide
  fun_induction unifyLineEnds text with
  | case1 => simp
  | case2 rest ih => simp [lineFeed, carriageReturn, ih]
  | case3 rest _ ih => simp [lineFeed, carriageReturn, ih]
  | case4 c rest _ _ ih => simp [ih]

end Text

namespace FormulaFile

variable {openFile : Path → Opened} {path : Path} {chars : List Char}

-- The formula text is what is in the file between the blanks at its two ends.
inductive Holds (openFile : Path → Opened) (path : Path) : String → Prop where
  | solid {bytes : List UInt8} {chars : List Char} (whole : Char.ofNat 0 ∉ path.text.toList)
      (opened : openFile path = .bytes bytes) (decoded : Text.decodeUtf8 bytes = .ok chars)
      (solid : ¬∀ c ∈ chars, Text.isBlank c) :
      Holds openFile path (String.ofList (Text.trim (Text.unifyLineEnds chars)))

inductive Unavailable (openFile : Path → Opened) (path : Path) : Prop where
  | missing (opened : openFile path = .missing)
  | unreadable {fault : OpenFault} (opened : openFile path = .fault fault)
  | nullInPath (broken : Char.ofNat 0 ∈ path.text.toList)
  | undecodable {bytes : List UInt8} {error : Text.Utf8Error}
      (opened : openFile path = .bytes bytes) (decoded : Text.decodeUtf8 bytes = .error error)
  | blank {bytes : List UInt8} {chars : List Char} (opened : openFile path = .bytes bytes)
      (decoded : Text.decodeUtf8 bytes = .ok chars) (blank : ∀ c ∈ chars, Text.isBlank c)

theorem trimmed_eq_nil_iff :
    Text.trim (Text.unifyLineEnds chars) = [] ↔ ∀ c ∈ chars, Text.isBlank c :=
  Text.trim_eq_nil_iff.trans Text.blank_unifyLineEnds_iff

theorem Holds.read_eq {formula : String} (held : Holds openFile path formula) :
    read openFile path = .ok formula := by
  cases held with
  | solid whole opened decoded solid =>
    simp [read, whole, opened, ofOpened, ofBytes, decoded, mt trimmed_eq_nil_iff.mp solid]

theorem Unavailable.read_eq (unavailable : Unavailable openFile path) :
    ∃ error, read openFile path = .error error := by
  by_cases null : Char.ofNat 0 ∈ path.text.toList
  · exact ⟨.nullInPath, by simp [read, null]⟩
  · have reached : read openFile path = ofOpened path (openFile path) := by simp [read, null]
    rw [reached]
    cases unavailable with
    | missing opened => exact ⟨_, by rw [opened, ofOpened]⟩
    | unreadable opened => exact ⟨_, by rw [opened, ofOpened]⟩
    | nullInPath broken => exact absurd broken null
    | undecodable opened decoded => exact ⟨_, by rw [opened, ofOpened, ofBytes, decoded]⟩
    | blank opened decoded blank =>
      exact ⟨.empty, by simp [opened, ofOpened, ofBytes, decoded, trimmed_eq_nil_iff.mpr blank]⟩

theorem holds_or_unavailable (openFile : Path → Opened) (path : Path) :
    (∃ formula, Holds openFile path formula) ∨ Unavailable openFile path := by
  by_cases broken : Char.ofNat 0 ∈ path.text.toList
  · exact .inr (.nullInPath broken)
  · cases opened : openFile path with
    | missing => exact .inr (.missing opened)
    | fault fault => exact .inr (.unreadable opened)
    | bytes bytes =>
      cases decoded : Text.decodeUtf8 bytes with
      | error error => exact .inr (.undecodable opened decoded)
      | ok chars =>
        by_cases blank : ∀ c ∈ chars, Text.isBlank c
        · exact .inr (.blank opened decoded blank)
        · exact .inl ⟨_, .solid broken opened decoded blank⟩

end FormulaFile

namespace CommandLine

inductive Origin where
  | argument (formula : String)
  | file (path : String)
  deriving DecidableEq, Repr

namespace Origin

def options (o : Origin) (full formsOnly quiet debug : Bool) : Options :=
  match o with
  | argument formula => ⟨some formula, none, full, formsOnly, quiet, debug⟩
  | file path => ⟨none, some path, full, formsOnly, quiet, debug⟩

-- The origin as arguments that cannot be taken for anything else.
def given : Origin → List String
  | argument formula => [separator, formula]
  | file path => ["--formula-file=" ++ path]

end Origin

section Arguments

def switchName : Flag → String
  | .full => "--full"
  | .formsOnly => "--forms-only"
  | .quiet => "--quiet"
  | .debug => "--debug"
  | .help => "--help"
  | .file => "--formula-file"

def IsSwitch (flag : Flag) : Prop := flag ≠ .help ∧ flag ≠ .file

def Progress.turnOn (p : Progress) : Flag → Progress
  | .full => { p with options.full := true }
  | .formsOnly => { p with options.formsOnly := true }
  | .quiet => { p with options.quiet := true }
  | .debug => { p with options.debug := true }
  | .help | .file => p

variable {convention : Convention}

def switchItem (flag : Flag) : Item := ⟨switchName flag, .option flag .nothing⟩

theorem items_switches (flags : List Flag) (rest : List String) :
    items convention (flags.map switchName ++ rest) =
      (items convention rest).map (flags.map switchItem ++ ·) := by
  induction flags with
  | nil =>
    simp only [List.map_nil, List.nil_append]
    cases items convention rest <;> rfl
  | cons flag flags ih =>
    have other : switchName flag ≠ separator := by cases flag <;> decide
    have shaped : shapeOf convention (switchName flag) = .ok (.option flag .nothing) := by
      cases flag <;> rfl
    rw [List.map_cons, List.cons_append, items, if_neg other, shaped]
    simp only [ih]
    cases items convention rest <;> rfl

theorem understand_switches {flags : List Flag} (switches : ∀ flag ∈ flags, IsSwitch flag)
    (p : Progress) (rest : List Item) :
    understand convention p (flags.map switchItem ++ rest) =
      understand convention (flags.foldl Progress.turnOn p) rest := by
  induction flags generalizing p with
  | nil => rfl
  | cons flag flags ih =>
    have step : understand convention p (switchItem flag :: (flags.map switchItem ++ rest)) =
        understand convention (p.turnOn flag) (flags.map switchItem ++ rest) := by
      obtain ⟨noHelp, noFile⟩ := switches flag (List.mem_cons_self ..)
      cases flag with
      | help => exact absurd rfl noHelp
      | file => exact absurd rfl noFile
      | full | formsOnly | quiet | debug =>
        rw [understand]
        exact congrArg (understand convention · _) (Progress.leaveAny_none _)
    rw [List.map_cons, List.cons_append, step]
    exact ih (fun other member => switches other (List.mem_cons_of_mem _ member)) _

def switches (full formsOnly quiet debug : Bool) : List Flag :=
  [(Flag.full, full), (.formsOnly, formsOnly), (.quiet, quiet), (.debug, debug)].filterMap
    fun (flag, on) => if on then some flag else none

def Origin.item : Origin → List Item
  | argument formula => [⟨separator, .separator⟩, ⟨formula, .plain⟩]
  | file path => [⟨"--formula-file=" ++ path, .option .file (.value path)⟩]

theorem ofSpelling?_of_equals {argument : String} (equals : '=' ∈ argument.toList) :
    Flag.ofSpelling? argument = none := by
  refine List.lookup_eq_none_iff.mpr fun entry member => ?_
  have plain : ∀ entry ∈ Flag.spellings, '=' ∉ entry.1.toList := by decide
  rw [bne_iff_ne]
  rintro rfl
  exact plain entry member equals

theorem shapeOf_file (path : String) :
    shapeOf convention ("--formula-file=" ++ path) = .ok (.option .file (.value path)) := by
  have chars : ("--formula-file=" ++ path).toList =
      "--formula-file".toList ++ '=' :: path.toList := by simp
  have unspelled : Flag.ofSpelling? ("--formula-file=" ++ path) = none :=
    ofSpelling?_of_equals (by rw [chars]; exact List.mem_append_right _ (List.mem_cons_self ..))
  have within : ∀ c ∈ "--formula-file".toList, (c != '=') = true := List.all_eq_true.mp (by rfl)
  have ends : ∀ c ∈ ('=' :: path.toList).head?, (c != '=') = false := by simp
  obtain ⟨front, back⟩ := takeWhile_append_eq within ends
  have split : splitEquals ("--formula-file=" ++ path) = ("--formula-file", some path) := by
    simp only [splitEquals, chars, front, back, String.ofList_toList]
  have dashed : ("--formula-file=" ++ path).toList =
      '-' :: '-' :: ("formula-file=".toList ++ path.toList) := by
    rw [String.toList_append]
    rfl
  rw [shapeOf, dashed]
  simp only [unspelled, split]
  cases convention <;> rfl

theorem items_given (o : Origin) : items convention o.given = .ok o.item := by
  cases o with
  | argument formula => simp [Origin.given, Origin.item, items]
  | file path =>
    have other : "--formula-file=" ++ path ≠ separator := by
      intro same
      have equals : '=' ∈ ("--formula-file=" ++ path).toList := by simp
      rw [same] at equals
      exact absurd equals (by decide)
    simp [Origin.given, Origin.item, items, other, shapeOf_file, Except.map]

theorem turnOn_switches (full formsOnly quiet debug : Bool) :
    (switches full formsOnly quiet debug).foldl Progress.turnOn .start =
      ⟨⟨none, none, full, formsOnly, quiet, debug⟩, true, []⟩ := by
  cases full <;> cases formsOnly <;> cases quiet <;> cases debug <;> rfl

theorem isSwitch_of_mem {full formsOnly quiet debug : Bool} {flag : Flag}
    (member : flag ∈ switches full formsOnly quiet debug) : IsSwitch flag := by
  obtain ⟨⟨other, on⟩, listed, chosen⟩ := List.mem_filterMap.mp member
  have same : other = flag := by
    dsimp only at chosen
    split at chosen
    · exact Option.some.inj chosen
    · cases chosen
  subst same
  simp only [List.mem_cons, Prod.mk.injEq, List.not_mem_nil, or_false] at listed
  rcases listed with ⟨rfl, _⟩ | ⟨rfl, _⟩ | ⟨rfl, _⟩ | ⟨rfl, _⟩ <;> exact ⟨by decide, by decide⟩

theorem read_switches {arguments : List String} {shaped : List Item}
    (found : items convention arguments = .ok shaped) (full formsOnly quiet debug : Bool) :
    read convention ((switches full formsOnly quiet debug).map switchName ++ arguments) =
      understand convention ⟨⟨none, none, full, formsOnly, quiet, debug⟩, true, []⟩ shaped := by
  rw [read, items_switches, found, Except.map]
  simp only [understand_switches fun _ => isSwitch_of_mem, turnOn_switches]

theorem read_options (o : Origin) (full formsOnly quiet debug : Bool) :
    read convention ((switches full formsOnly quiet debug).map switchName ++ o.given) =
      .ok (.run (o.options full formsOnly quiet debug)) := by
  rw [read_switches (items_given o)]
  cases o with
  | argument formula =>
    simp [Origin.item, Origin.options, understand, takeFormula, Progress.giveFormula, finish]
  | file path =>
    simp [Origin.item, Origin.options, understand, cluster, single, Flag.takesValue, Cluster.one,
      follow, Progress.giveFile, finish]

theorem read_letter {path : String} (dashless : path.toList.head? ≠ some '-')
    (full formsOnly quiet debug : Bool) :
    read convention ((switches full formsOnly quiet debug).map switchName ++ ["-f", path]) =
      .ok (.run ((Origin.file path).options full formsOnly quiet debug)) := by
  have plain : shapeOf convention path = .ok .plain := by
    unfold shapeOf
    split
    · rename_i chars
      exact absurd (by rw [chars]; rfl) dashless
    · rfl
  have other : path ≠ separator := by
    rintro rfl
    exact dashless rfl
  have letter : shapeOf convention "-f" = .ok (.option .file .nothing) := by rfl
  have begins : "-f" ≠ separator := by decide
  have shaped : items convention ["-f", path] =
      .ok [⟨"-f", .option .file .nothing⟩, ⟨path, .plain⟩] := by
    simp [items, letter, begins, plain, other, Except.map]
  rw [read_switches shaped]
  simp [Origin.options, understand, cluster, single, Flag.takesValue, follow, Progress.giveFile,
    finish]

end Arguments

section Requests

def Progress.Single (p : Progress) : Prop := p.options.formula = none ∨ p.options.file = none

namespace Progress.Single

variable {convention : Convention} {p q : Progress} {options : Options}

theorem giveFormula {formula : String} (given : p.giveFormula formula = .ok q) : q.Single := by
  unfold Progress.giveFormula at given
  split at given
  · cases given
  · rename_i free
    cases given
    exact .inr (by simpa using free)

theorem giveFile {file : String} (given : p.giveFile file = .ok q) : q.Single := by
  unfold Progress.giveFile at given
  split at given
  · cases given
  · rename_i free
    cases given
    exact .inl (by simpa using free)

theorem follow {given : List Given} (single : p.Single)
    (followed : follow p given = .ok (some q)) : q.Single := by
  fun_induction CommandLine.follow p given with
  | case1 =>
    cases followed
    exact single
  | case2 | case3 => cases followed
  | case4 _ _ _ _ accepted ih => exact ih (giveFile accepted) followed
  | case5 _ _ _ ih | case6 _ _ _ ih | case7 _ _ _ ih | case8 _ _ _ ih => exact ih single followed

theorem finish (single : p.Single) (finished : finish p = .ok (.run options)) :
    ∃ o : Origin,
      options = o.options options.full options.formsOnly options.quiet options.debug := by
  unfold CommandLine.finish at finished
  split at finished
  · cases finished
  · rename_i some
    split at finished
    · cases finished
    · cases finished
      obtain ⟨⟨formula, file, full, formsOnly, quiet, debug⟩, _, _⟩ := p
      rcases single with none | none
      · cases none
        cases file with
        | none => simp at some
        | some path => exact ⟨.file path, rfl⟩
      · cases none
        cases formula with
        | none => simp at some
        | some formula => exact ⟨.argument formula, rfl⟩

theorem understand {arguments : List Item} (single : p.Single)
    (understood : understand convention p arguments = .ok (.run options)) :
    ∃ o : Origin,
      options = o.options options.full options.formsOnly options.quiet options.debug := by
  fun_induction CommandLine.understand convention p arguments with
  | case1 => exact single.finish understood
  | case2 _ _ _ _ ih => exact ih single understood
  | case3 | case4 | case5 | case7 | case8 | case10 | case12 | case16 => cases understood
  | case6 _ _ _ _ _ _ _ _ _ _ followed ih =>
    have kept := single.follow followed
    exact ih kept understood
  | case9 _ _ _ _ _ _ _ _ _ _ _ _ followed ih => exact ih (single.follow followed) understood
  | case11 _ _ _ _ _ _ _ ih | case15 _ _ _ _ _ _ _ ih => exact ih single understood
  | case13 _ _ _ _ _ _ _ _ _ given ih | case17 _ _ _ _ _ _ _ _ _ given ih =>
    have filled := giveFormula given
    exact ih filled understood
  | case14 _ _ _ _ _ ih | case18 _ _ _ _ _ ih => exact ih single understood

end Progress.Single

-- Whatever arguments are understood as a request to run give the formula in exactly one way.
theorem exists_origin {convention : Convention} {arguments : List String} {options : Options}
    (asked : read convention arguments = .ok (.run options)) :
    ∃ o : Origin,
      options = o.options options.full options.formsOnly options.quiet options.debug := by
  unfold read at asked
  split at asked
  · cases asked
  · exact Progress.Single.understand (.inl rfl) asked

end Requests

-- The path is taken for one. By the older convention, two dashes are none.
def Convention.Takes (convention : Convention) (path : String) : Prop :=
  convention = .older → path ≠ separator

theorem Convention.takes_newer (path : String) : Convention.newer.Takes path := nofun

namespace Origin

variable {convention : Convention} {openFile : Path → Opened} {o : Origin} {formula : String}
variable {full formsOnly quiet debug : Bool}

inductive Gives (convention : Convention) (openFile : Path → Opened) : Origin → String → Prop where
  | argument (formula : String) : Gives convention openFile (.argument formula) formula
  | file {path formula : String} (taken : convention.Takes path)
      (held : FormulaFile.Holds openFile (Path.ofText path) formula) :
      Gives convention openFile (.file path) formula

inductive Fails (convention : Convention) (openFile : Path → Opened) : Origin → Prop where
  | file {path : String} (taken : convention.Takes path)
      (unavailable : FormulaFile.Unavailable openFile (Path.ofText path)) :
      Fails convention openFile (.file path)

theorem lacksPath_file {path : String} (taken : convention.Takes path) :
    lacksPath convention ((file path).options full formsOnly quiet debug) = false := by
  cases convention with
  | older => simpa [lacksPath, options] using taken rfl
  | newer => rfl

theorem Gives.course_eq (given : o.Gives convention openFile formula) :
    course convention openFile (o.options full formsOnly quiet debug) =
      courseOf formula full formsOnly := by
  cases given with
  | argument => simp [course, lacksPath, formulaOf, options]
  | file taken held =>
    rw [course, lacksPath_file taken]
    simp [formulaOf, options, held.read_eq]

theorem Fails.course_eq (failing : o.Fails convention openFile) :
    ∃ error : FileError, ∀ full formsOnly quiet debug,
      course convention openFile (o.options full formsOnly quiet debug) =
        ⟨[.error ("Formula file error: " ++ error.message)], fileCode⟩ := by
  cases failing with
  | file taken unavailable =>
    obtain ⟨error, read⟩ := unavailable.read_eq
    refine ⟨error, fun full formsOnly quiet debug => ?_⟩
    rw [course, lacksPath_file taken]
    simp [formulaOf, options, read, failed]

theorem course_eq_of_not_takes {path : String} (untaken : ¬convention.Takes path) :
    course convention openFile ((file path).options full formsOnly quiet debug) =
      ⟨[.error "Unexpected error: expected str, bytes or os.PathLike object, not list"],
        unexpectedCode⟩ := by
  obtain ⟨rfl, rfl⟩ : convention = .older ∧ path = separator := by
    simpa [Convention.Takes] using untaken
  rfl

-- Where two dashes are no path, they leave the option without a value, and there is no file to be
-- read.
theorem gives_or_fails (convention : Convention) (openFile : Path → Opened) (o : Origin) :
    (convention = .older ∧ o = .file separator) ∨ (∃ formula, o.Gives convention openFile formula) ∨
      o.Fails convention openFile := by
  cases o with
  | argument formula => exact .inr (.inl ⟨formula, .argument formula⟩)
  | file path =>
    by_cases taken : convention.Takes path
    · rcases FormulaFile.holds_or_unavailable openFile (Path.ofText path) with ⟨_, held⟩ | missing
      · exact .inr (.inl ⟨_, .file taken held⟩)
      · exact .inr (.inr (.file taken missing))
    · obtain ⟨older, same⟩ : convention = .older ∧ path = separator := by
        simpa [Convention.Takes] using taken
      exact .inl ⟨older, by rw [same]⟩

end Origin

end CommandLine

end TruthTables

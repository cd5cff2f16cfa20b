import TruthTables.CommandLine.Help
import TruthTables.CommandLine.Options
import TruthTables.Files.Formula
import TruthTables.Log.Journal
import TruthTables.Log.Narration
import TruthTables.Log.Report

namespace TruthTables.CommandLine

structure Course where
  records : List Record
  code : Nat
  deriving DecidableEq, Repr

def formulaCode : Nat := 2

def fileCode : Nat := 3

def unexpectedCode : Nat := 5

def unexpected (records : List Record) (message : String) : Course :=
  ⟨records ++ [.error ("Unexpected error: " ++ message)], unexpectedCode⟩

def failed (records : List Record) (message : String) : Course :=
  ⟨records ++ [.error ("Formula file error: " ++ message)], fileCode⟩

def report (formula : String) (t : Table) (formsOnly : Bool) : Telling :=
  if formsOnly then Report.ofForms t else (Report.ofTable formula t).andThen (Report.ofForms t)

-- A number that is too long to be written passes for something that is wrong with a file.
def courseOf (formula : String) (full formsOnly : Bool) : Course :=
  let opened := Narration.ofStart formula []
  match Analysis.start formula [] false with
  | .error (.formula error) =>
    ⟨opened ++ [.error ("Formula parsing error: " ++ error.message)], formulaCode⟩
  | .error _ => unexpected opened ""
  | .ok a =>
    let made := opened ++ Narration.ofTabulate a full
    match (a.tabulate full).1 with
    | .error error => unexpected made error.message
    | .ok table =>
      let told := report formula table formsOnly
      match told.stopped with
      | none => ⟨made ++ told.records, 0⟩
      | some (.table error) => unexpected (made ++ told.records) error.message
      | some (.numeral error) => failed (made ++ told.records) error.message

def formulaOf (openFile : Path → Opened) (options : Options) : Except FileError String :=
  match options.formula with
  | some formula => .ok formula
  | none => FormulaFile.read openFile (Path.ofText (options.file.getD ""))

def lacksPath (convention : Convention) (options : Options) : Bool :=
  convention = .older && options.formula.isNone && options.file == some separator

def course (convention : Convention) (openFile : Path → Opened) (options : Options) : Course :=
  if lacksPath convention options then
    unexpected [] "expected str, bytes or os.PathLike object, not list"
  else
    match formulaOf openFile options with
    | .error error => failed [] error.message
    | .ok formula => courseOf formula options.full options.formsOnly

inductive Outcome where
  | returned (code : Nat)
  | helped
  | refused (error : UsageError)
  deriving DecidableEq, Repr

structure Run where
  outcome : Outcome
  out : String
  deriving DecidableEq, Repr

def lines (records : List Record) : String := String.join (records.map Record.line)

-- Runs the program once. The level of the journal is set by the options and stays; a run that does
-- not get past the arguments leaves it as it was.
def run (convention : Convention) (openFile : Path → Opened) (j : Journal)
    (arguments : List String) : Run × Journal :=
  match read convention arguments with
  | .error error => (⟨.refused error, ""⟩, j)
  | .ok .help => (⟨.helped, help⟩, j)
  | .ok (.run options) =>
    let j := j.configure ⟨!options.quiet, options.debug⟩
    let course := course convention openFile options
    (⟨.returned course.code, lines (j.written course.records)⟩, j)

def runAll (convention : Convention) (openFile : Path → Opened) (j : Journal) :
    List (List String) → List (Run × Int)
  | [] => []
  | arguments :: rest =>
    let (result, j) := run convention openFile j arguments
    (result, j.current.level) :: runAll convention openFile j rest

def refusal (error : UsageError) : String := programName ++ ": error: " ++ error.message

end TruthTables.CommandLine

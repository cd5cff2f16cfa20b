import TruthTables.CommandLine.Run

namespace TruthTables.CommandLine

def openedOfError : IO.Error → Opened
  | .noFileOrDirectory .. => .missing
  | .inappropriateType _ 21 _ => .fault .isDirectory
  | .inappropriateType .. => .fault .notDirectory
  | .invalidArgument .. => .fault .nameTooLong
  | .permissionDenied .. => .fault ⟨13, "Permission denied"⟩
  | _ => .fault ⟨5, "Input/output error"⟩

def openFile (path : Path) : IO Opened := do
  try
    let bytes ← IO.FS.readBinFile path.text
    return .bytes bytes.toList
  catch error =>
    return openedOfError error

-- The file that the arguments ask for, opened beforehand, so that the run itself can be a function.
def openRequested (convention : Convention) (arguments : List String) : IO Opened :=
  match read convention arguments with
  | .ok (.run options) =>
    match options.formula, options.file with
    | none, some file => openFile (Path.ofText file)
    | _, _ => return .missing
  | _ => return .missing

def runProgram (convention : Convention) (arguments : List String) : IO UInt32 := do
  let opened ← openRequested convention arguments
  let (result, _) := run convention (fun _ => opened) .empty arguments
  IO.print result.out
  match result.outcome with
  | .returned code => return code.toUInt32
  | .helped => return 0
  | .refused error =>
    IO.eprint (usage ++ refusal error ++ "\n")
    return 2

end TruthTables.CommandLine

def main (arguments : List String) : IO UInt32 :=
  TruthTables.CommandLine.runProgram .newer arguments

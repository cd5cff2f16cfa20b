import TruthTables.Files.Store
import TruthTables.Text.Blank
import TruthTables.Text.Lines
import TruthTables.Text.Quoted
import TruthTables.Text.Utf8

namespace TruthTables

inductive FileError where
  | missing (path : Path)
  | unreadable (fault : OpenFault) (path : Path)
  | nullInPath
  | undecodable (error : Text.Utf8Error)
  | empty
  deriving DecidableEq, Repr

def Text.Utf8Error.message (error : Text.Utf8Error) : String :=
  let place :=
    if error.length = 1 then
      "byte 0x" ++ String.ofList (Text.hex 2 error.byte.toNat) ++ " in position "
        ++ toString error.position
    else
      "bytes in position " ++ toString error.position ++ "-"
        ++ toString (error.position + error.length - 1)
  "'utf-8' codec can't decode " ++ place ++ ": " ++ error.fault.message

def FileError.message : FileError → String
  | missing path => "Formula file not found: " ++ path.text
  | unreadable fault path =>
    "Error reading formula file: [Errno " ++ toString fault.code ++ "] " ++ fault.text ++ ": "
      ++ Text.quote path.text
  | nullInPath => "embedded null byte"
  | undecodable error => error.message
  | empty => "Formula file is empty"

namespace FormulaFile

def ofBytes (bytes : List UInt8) : Except FileError String :=
  match Text.decodeUtf8 bytes with
  | .error error => .error (.undecodable error)
  | .ok chars =>
    let formula := Text.trim (Text.unifyLineEnds chars)
    if formula.isEmpty then .error .empty else .ok (String.ofList formula)

def ofOpened (path : Path) : Opened → Except FileError String
  | .missing => .error (.missing path)
  | .fault fault => .error (.unreadable fault path)
  | .bytes bytes => ofBytes bytes

def read (openFile : Path → Opened) (path : Path) : Except FileError String :=
  if path.text.toList.contains (Char.ofNat 0) then .error .nullInPath
  else ofOpened path (openFile path)

end FormulaFile

end TruthTables

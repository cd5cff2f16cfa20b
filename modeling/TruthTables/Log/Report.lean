import TruthTables.Analysis.Basic
import TruthTables.Log.Record

namespace TruthTables

structure TitleError where
  position : Nat
  kind : String
  deriving DecidableEq, Repr

def TitleError.message (error : TitleError) : String :=
  "sequence item " ++ toString error.position ++ ": expected str instance, " ++ error.kind
    ++ " found"

inductive ReportError where
  | table (error : TableError)
  | numeral (error : NumeralError)
  deriving DecidableEq, Repr

structure Telling where
  records : List Record
  stopped : Option ReportError
  deriving DecidableEq, Repr

namespace Telling

def cons (record : Record) (told : Telling) : Telling :=
  { told with records := record :: told.records }

def andThen (first next : Telling) : Telling :=
  match first.stopped with
  | some _ => first
  | none => { next with records := first.records ++ next.records }

def ofSteps : List (Except ReportError Record) → Telling
  | [] => ⟨[], none⟩
  | .error error :: _ => ⟨[], some error⟩
  | .ok record :: rest => (ofSteps rest).cons record

theorem eq_of_stopped {told : Telling} {stopped : Option ReportError}
    (same : told.stopped = stopped) : told = ⟨told.records, stopped⟩ := by rw [← same]

end Telling

namespace Report

def columnGap : String := " | "

def titles (position : Nat) : List Value → Except TitleError (List String)
  | [] => .ok []
  | .text title :: rest => (titles (position + 1) rest).map (title :: ·)
  | value :: _ => .error ⟨position, value.kind⟩

def titleLine (titles : List String) : Record := .info (columnGap.intercalate titles)

def opening (formula : String) : List Record :=
  [.info "=== Truth Table ===", .info ("Formula: " ++ formula)]

def header (formula : String) (titles : List String) : List Record :=
  opening formula ++ [titleLine titles]

def rowNumber (number : Int) : Except NumeralError String :=
  (numeral number).map fun digits =>
    String.ofList (List.replicate (3 - digits.length) ' ') ++ digits

def shownAll : List Value → Except NumeralError (List String)
  | [] => .ok []
  | cell :: rest =>
    match cell.shown with
    | .error error => .error error
    | .ok text => (shownAll rest).map (text :: ·)

def row (number : Int) (cells : List Value) : Except NumeralError Record :=
  match rowNumber number with
  | .error error => .error error
  | .ok label =>
    (shownAll cells).map fun cells => .info (label ++ ": " ++ columnGap.intercalate cells)

def form (label text : String) : Record :=
  .info (label ++ ": " ++ if text.isEmpty then "(none)" else text)

def counts (positive negative total : Int) : Except NumeralError Record := do
  let total ← numeral total
  let positive ← numeral positive
  let negative ← numeral negative
  return .info ("Rows: " ++ total ++ " (true: " ++ positive ++ ", false: " ++ negative ++ ")")

def rowsFrom (columns : Entries (List Value)) (number : Nat) : Nat → Telling
  | 0 => ⟨[], none⟩
  | count + 1 =>
    match Table.rowAt columns number with
    | .error error => ⟨[], some (.table error)⟩
    | .ok cells =>
      match row number (cells.map (·.2)) with
      | .error error => ⟨[], some (.numeral error)⟩
      | .ok record => (rowsFrom columns (number + 1) count).cons record

def ofTable (formula : String) (t : Table) : Telling :=
  Telling.andThen ⟨header formula t.columns.keys, none⟩ (rowsFrom t.columns 0 t.total.toNat)

def ofIndex (t : Table) : Except ReportError Record :=
  match t.index with
  | .error error => .error (.table error)
  | .ok index => (index.shown.map (form "Binary index")).mapError .numeral

def ofForms (t : Table) : Telling := .ofSteps [
  .ok (form "SDNF" t.disjunctive),
  .ok (form "SKNF" t.conjunctive),
  ((t.display .disjunctive).map (form "CDNF")).mapError .table,
  ((t.display .conjunctive).map (form "CCNF")).mapError .table,
  ((t.displayRows .disjunctive).map (form "CDNF bin")).mapError .table,
  ((t.displayRows .conjunctive).map (form "CCNF bin")).mapError .table,
  ofIndex t,
  (counts t.positive t.negative t.total).mapError .numeral]

end Report

end TruthTables

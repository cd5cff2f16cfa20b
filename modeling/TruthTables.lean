import TruthTables.Main
import TruthTables.Formula.Grammar
import TruthTables.Proofs.Canonicity
import TruthTables.Proofs.Histories
import TruthTables.Proofs.BitwiseIndex
import TruthTables.Proofs.Viability
import TruthTables.Proofs.Offenders
import TruthTables.Proofs.Duality
import TruthTables.Proofs.Renaming
import TruthTables.Proofs.VisitHistories
import TruthTables.Proofs.PrintedTable
import TruthTables.Proofs.JournalCalls
import TruthTables.Proofs.Blanks
import TruthTables.Proofs.Refusals
import TruthTables.Proofs.RowForms
import TruthTables.Proofs.Walks
import TruthTables.Proofs.Keys
import TruthTables.Proofs.FormulaFiles
import TruthTables.Proofs.ChainReading

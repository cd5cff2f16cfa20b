import TruthTables.Analysis.Basic

namespace TruthTables

structure History where
  analysis : Analysis
  handedOut : List Table
  deriving Repr, BEq

namespace History

def start (a : Analysis) : History := ⟨a, []⟩

def ask (h : History) (q : Query) : Except AnalysisError Answer × History :=
  match h.analysis.ask q with
  | (.ok (.table table), a) =>
    match q with
    | .tabulate _ => (.ok (.table table), ⟨a, h.handedOut ++ [table]⟩)
    | _ => (.ok (.table table), { h with analysis := a })
  | (answer, a) => (answer, { h with analysis := a })

def handed? (h : History) (number : Nat) : Option (Table × Bool) :=
  (h.handedOut[number]?).map fun table => (table, number + 1 == h.handedOut.length)

end History

end TruthTables

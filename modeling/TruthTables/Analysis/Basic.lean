import TruthTables.Formula.Parser
import TruthTables.Table.Build
import TruthTables.Table.Display

namespace TruthTables

structure NamesMismatch where
  expected : List String
  missing : List String
  unknown : List String
  deriving DecidableEq, Repr

def NamesMismatch.message (error : NamesMismatch) : String :=
  "Assignment must bind exactly " ++ Text.quoteList error.expected ++ " (missing "
    ++ Text.quoteList error.missing ++ ", unknown " ++ Text.quoteList error.unknown ++ ")"

inductive AnalysisError where
  | formula (error : FormulaError)
  | binding (error : BindingError)
  | names (error : NamesMismatch)
  | build (error : BuildError)
  | table (error : TableError)
  deriving Repr, BEq

structure Analysis where
  text : String
  namesOnly : Bool
  root : Expr
  -- The variables: in the order in which the formula names them until a table is made, sorted after
  -- that.
  names : List String
  values : Entries TruthValue
  value : TruthValue
  table : Option Table
  deriving Repr, BEq

def sortNames (names : List String) : List String := names.mergeSort fun a b => decide (a ≤ b)

namespace Analysis

def start (text : String) (bindings : List (String × Value)) (namesOnly : Bool) :
    Except AnalysisError Analysis :=
  match parse text with
  | .error error => .error (.formula error)
  | .ok parsed =>
    match Assignment.ofBindings bindings with
    | .error error => .error (.binding error)
    | .ok assignment =>
      match parsed.root.evaluate assignment namesOnly with
      | .error error => .error (.build (.unfinished error))
      | .ok evaluation =>
        .ok { text, namesOnly
              root := parsed.root
              names := parsed.names
              values := evaluation.entries
              value := evaluation.result
              table := none }

def keys (a : Analysis) (full : Bool) : List String :=
  if full then a.values.keys else sortNames a.names

def tabulate (a : Analysis) (full : Bool) : Except BuildError Table × Analysis :=
  let names := sortNames a.names
  match Table.build a.root names (a.keys full) with
  | .error error => (.error error, { a with names })
  | .ok table => (.ok table, { a with names, table := some table })

def ensureTable (a : Analysis) : Except BuildError Table × Analysis :=
  match a.table with
  | some table => (.ok table, a)
  | none => a.tabulate false

def mismatch? (a : Analysis) (bound : List String) : Option NamesMismatch :=
  let missing := a.names.filter fun name => !bound.contains name
  let unknown := bound.filter fun name => !a.names.contains name
  if missing.isEmpty && unknown.isEmpty then none
  else some ⟨sortNames a.names, sortNames missing, sortNames unknown⟩

-- The value of the formula at an assignment that binds its variables and nothing else. The names
-- are checked before the values.
def evaluate (a : Analysis) (bindings : List (String × Value)) : Except AnalysisError TruthValue :=
  let entries := Entries.ofPairs bindings
  match a.mismatch? entries.keys with
  | some error => .error (.names error)
  | none =>
    match Assignment.ofEntries entries with
    | .error error => .error (.binding error)
    | .ok assignment =>
      match a.root.evaluate assignment true with
      | .error error => .error (.build (.unfinished error))
      | .ok evaluation => .ok evaluation.result

def written (a : Analysis) : String := "BooleanFunction(" ++ Text.quote a.text ++ ")"

end Analysis

inductive Feature where
  | columns
  | chain (polarity : Polarity)
  | display (polarity : Polarity)
  | displayRows (polarity : Polarity)
  | index
  | positive
  | negative
  | total
  | isTautology
  | isContradiction
  | isSatisfiable
  deriving DecidableEq, Repr

inductive Query where
  | tabulate (full : Bool)
  | evaluate (bindings : List (String × Value))
  | feature (feature : Feature)
  | table
  | rows
  | size
  | names
  | values
  | value
  | text
  | root
  | written
  deriving Repr, BEq

inductive Answer where
  | nothing
  | flag (value : Bool)
  | number (value : Int)
  | text (value : String)
  | names (names : List String)
  | cell (value : Value)
  | truth (value : TruthValue)
  | entries (entries : Entries TruthValue)
  | columns (columns : Entries (List Value))
  | rows (rows : List (Entries Value))
  | table (table : Table)
  | expr (root : Expr)
  deriving Repr, BEq

namespace Table

def feature (t : Table) : Feature → Except TableError Answer
  | .columns => .ok (.columns t.columns)
  | .chain .disjunctive => .ok (.text t.disjunctive)
  | .chain .conjunctive => .ok (.text t.conjunctive)
  | .display polarity => (t.display polarity).map .text
  | .displayRows polarity => (t.displayRows polarity).map .text
  | .index => t.index.map .cell
  | .positive => .ok (.number t.positive)
  | .negative => .ok (.number t.negative)
  | .total => .ok (.number t.total)
  | .isTautology => .ok (.flag (t.negative == 0))
  | .isContradiction => .ok (.flag (t.positive == 0))
  | .isSatisfiable => .ok (.flag (0 < t.positive))

end Table

namespace Analysis

def feature (a : Analysis) (f : Feature) : Except AnalysisError Answer × Analysis :=
  match a.ensureTable with
  | (.error error, a) => (.error (.build error), a)
  | (.ok table, a) => ((table.feature f).mapError .table, a)

def ofTable (a : Analysis) (f : Table → Except TableError Answer) : Except AnalysisError Answer :=
  match a.table with
  | none => .ok .nothing
  | some table => (f table).mapError .table

def ask (a : Analysis) : Query → Except AnalysisError Answer × Analysis
  | .tabulate full =>
    match a.tabulate full with
    | (.error error, a) => (.error (.build error), a)
    | (.ok table, a) => (.ok (.table table), a)
  | .evaluate bindings => ((a.evaluate bindings).map .truth, a)
  | .feature f => a.feature f
  | .table => (a.ofTable fun table => .ok (.table table), a)
  | .rows => (a.ofTable fun table => table.rows.map .rows, a)
  | .size => (a.ofTable fun table => table.size.map fun size => .number size, a)
  | .names => (.ok (.names a.names), a)
  | .values => (.ok (.entries a.values), a)
  | .value => (.ok (.truth a.value), a)
  | .text => (.ok (.text a.text), a)
  | .root => (.ok (.expr a.root), a)
  | .written => (.ok (.text a.written), a)

end Analysis

end TruthTables

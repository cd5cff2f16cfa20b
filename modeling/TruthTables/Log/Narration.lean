import TruthTables.Analysis.Basic
import TruthTables.Log.Record

namespace TruthTables.Narration

def ofIllegal (illegal : Illegal) : Record :=
  .debug ("Illegal character '" ++ illegal.char.toString ++ "' at position "
    ++ toString illegal.position)

def ofScan (text : String) : List Record :=
  ((Lexer.scanText text).stopped.map ofIllegal).toList

def ofTokenize (text : String) : List Record :=
  match Lexer.tokenize text with
  | .error illegal => [ofIllegal illegal]
  | .ok lexemes =>
    [.debug ("Tokenized " ++ toString lexemes.length ++ " tokens from formula: "
      ++ Text.quote text)]

def ofParse (text : String) : List Record :=
  .debug ("Parsing formula: " ++ text) :: ofTokenize text ++
    match parse text with
    | .error _ => []
    | .ok parsed =>
      [.debug ("Parsed " ++ parsed.root.kind ++ " with atomics " ++ Text.quoteList parsed.names
        ++ ": " ++ parsed.root.text)]

def ofParseRoot (text : String) : List Record :=
  ofParse text ++
    match parse text with
    | .error _ => [.debug "ParseError encountered during formula parsing"]
    | .ok _ => []

def ofAssignment (assignment : Assignment) : Record :=
  .debug ("Bindings: " ++ assignment.written)

def ofBindings (bindings : List (String × Value)) : List Record :=
  match Assignment.ofBindings bindings with
  | .error _ => []
  | .ok assignment => [ofAssignment assignment]

def ofRows (root : Expr) (keys : List String) : List Assignment → List Record
  | [] => []
  | assignment :: rest =>
    ofAssignment assignment ::
      match Row.ofAssignment root keys assignment with
      | .error _ => []
      | .ok row =>
        .debug ("Row " ++ assignment.written ++ " -> " ++ row.result.shown)
          :: ofRows root keys rest

def ofBuild (root : Expr) (names keys : List String) : List Record :=
  match Assignment.countAll names with
  | .error _ => []
  | .ok total =>
    let rows := toString total
    .debug ("Building truth table over " ++ Text.quoteList names ++ " (" ++ rows ++ " rows)")
      :: ofRows root (Table.chosenKeys names keys) (Assignment.all names) ++
      match Table.build root names keys with
      | .error _ => []
      | .ok table =>
        [.debug ("Truth table complete: " ++ toString table.positive ++ " true, "
          ++ toString table.negative ++ " false, " ++ rows ++ " rows")]

def ofStart (text : String) (bindings : List (String × Value)) : List Record :=
  ofParse text ++
    match parse text with
    | .error _ => []
    | .ok _ => ofBindings bindings

def ofTabulate (a : Analysis) (full : Bool) : List Record :=
  .debug ("Computing details for " ++ Text.quote a.text ++ " (full="
      ++ (if full then "True" else "False") ++ ")")
    :: ofBuild a.root (sortNames a.names) (a.keys full)

def ofEvaluate (a : Analysis) (bindings : List (String × Value)) : List Record :=
  match a.mismatch? (Entries.ofPairs bindings).keys with
  | some _ => []
  | none => ofBindings bindings

def ofQuery (a : Analysis) : Query → List Record
  | .tabulate full => ofTabulate a full
  | .evaluate bindings => ofEvaluate a bindings
  | .feature _ => if a.table.isNone then ofTabulate a false else []
  | _ => []

end TruthTables.Narration

import TruthTables.Text.Digit
import TruthTables.Text.Quoted

namespace TruthTables

inductive Flag where
  | help
  | file
  | full
  | formsOnly
  | quiet
  | debug
  deriving DecidableEq, Repr

inductive Source where
  | argument
  | file
  deriving DecidableEq, Repr

inductive UsageError where
  | ambiguous (argument : String) (candidates : List String)
  | valueIgnored (flag : Flag) (value : String)
  | valueMissing (flag : Flag)
  | conflict (source earlier : Source)
  | sourceMissing
  | unrecognized (arguments : List String)
  deriving DecidableEq, Repr

structure Options where
  formula : Option String
  file : Option String
  full : Bool
  formsOnly : Bool
  quiet : Bool
  debug : Bool
  deriving DecidableEq, Repr

inductive Request where
  | help
  | run (options : Options)
  deriving DecidableEq, Repr

namespace Flag

def spellings : List (String × Flag) := [
  ("-h", help), ("--help", help), ("-f", file), ("--formula-file", file), ("--full", full),
  ("--forms-only", formsOnly), ("-q", quiet), ("--quiet", quiet), ("--debug", debug)]

def ofSpelling? (spelling : String) : Option Flag := spellings.lookup spelling

def name (flag : Flag) : String :=
  "/".intercalate ((spellings.filter fun (_, other) => other = flag).map (·.1))

def takesValue (flag : Flag) : Bool := flag = file

end Flag

def Source.name : Source → String
  | argument => "formula"
  | file => Flag.file.name

namespace UsageError

def message : UsageError → String
  | ambiguous argument candidates =>
    "ambiguous option: " ++ argument ++ " could match " ++ ", ".intercalate candidates
  | valueIgnored flag value =>
    "argument " ++ flag.name ++ ": ignored explicit argument " ++ Text.quote value
  | valueMissing flag => "argument " ++ flag.name ++ ": expected one argument"
  | conflict source earlier =>
    "argument " ++ source.name ++ ": not allowed with argument " ++ earlier.name
  | sourceMissing =>
    "one of the arguments " ++ Source.argument.name ++ " " ++ Source.file.name ++ " is required"
  | unrecognized arguments => "unrecognized arguments: " ++ " ".intercalate arguments

end UsageError

namespace CommandLine

def separator : String := "--"

-- Two conventions are in use for what stands in one argument with an option. By the older one, an
-- equals sign after a letter is passed over, a letter that is no option is the value of the one
-- before it, and a value of two dashes is none. By the newer one, an equals sign always sets off a
-- value, from a letter that is no option on all is left over, and two dashes are a plain value.
inductive Convention where
  | older
  | newer
  deriving DecidableEq, Repr

inductive Attached where
  | nothing
  | value (value : String)
  | tail (tail : String)
  deriving DecidableEq, Repr

inductive Shape where
  | plain
  | separator
  | unknown
  | option (flag : Flag) (attached : Attached)
  deriving DecidableEq, Repr

structure Item where
  argument : String
  shape : Shape
  deriving DecidableEq, Repr

def splitEquals (argument : String) : String × Option String :=
  let chars := argument.toList
  match chars.dropWhile (· != '=') with
  | [] => (argument, none)
  | _ :: value => (String.ofList (chars.takeWhile (· != '=')), some (String.ofList value))

def attach (convention : Convention) (spelling : String) : Option String → Attached
  | none => .nothing
  | some value =>
    if convention = .newer || separator.toList.isPrefixOf spelling.toList || value.isEmpty then
      .value value
    else .tail value

def isNegativeNumber (argument : String) : Bool :=
  match argument.toList with
  | '-' :: chars =>
    let chars := if chars.getLast? = some '\n' then chars.dropLast else chars
    match chars.dropWhile Text.isDecimalDigit with
    | [] => !chars.isEmpty
    | '.' :: fraction => !fraction.isEmpty && fraction.all Text.isDecimalDigit
    | _ => false
  | _ => false

def candidates (convention : Convention) (argument : String) : List (String × Shape) :=
  match argument.toList with
  | '-' :: '-' :: _ =>
    let (front, value) := splitEquals argument
    (Flag.spellings.filter fun (spelling, _) => front.toList.isPrefixOf spelling.toList).map
      fun (spelling, flag) => (spelling, .option flag (attach convention spelling value))
  | '-' :: letter :: value =>
    (Flag.spellings.filter fun (spelling, _) => spelling.toList = ['-', letter]).map
      fun (spelling, flag) => (spelling, .option flag (.tail (String.ofList value)))
  | _ => []

def guess (convention : Convention) (argument : String) : Except UsageError Shape :=
  match candidates convention argument with
  | [(_, shape)] => .ok shape
  | [] =>
    if isNegativeNumber argument || argument.toList.contains ' ' then .ok .plain else .ok .unknown
  | found => .error (.ambiguous argument (found.map (·.1)))

def shapeOf (convention : Convention) (argument : String) : Except UsageError Shape :=
  match argument.toList with
  | '-' :: _ :: _ =>
    match Flag.ofSpelling? argument with
    | some flag => .ok (.option flag .nothing)
    | none =>
      let (front, value) := splitEquals argument
      match Flag.ofSpelling? front with
      | some flag => .ok (.option flag (attach convention front value))
      | none => guess convention argument
  | _ => .ok .plain

def items (convention : Convention) : List String → Except UsageError (List Item)
  | [] => .ok []
  | argument :: rest =>
    if argument = separator then
      .ok (⟨argument, .separator⟩ :: rest.map fun argument => ⟨argument, .plain⟩)
    else
      match shapeOf convention argument with
      | .error error => .error error
      | .ok shape => (items convention rest).map (⟨argument, shape⟩ :: ·)

structure Progress where
  options : Options
  formulaDue : Bool
  leftOver : List String
  deriving DecidableEq, Repr

namespace Progress

def start : Progress := ⟨⟨none, none, false, false, false, false⟩, true, []⟩

def leave (p : Progress) (argument : String) : Progress :=
  { p with leftOver := p.leftOver ++ [argument] }

def leaveAny (p : Progress) (argument : Option String) : Progress :=
  { p with leftOver := p.leftOver ++ argument.toList }

@[simp]
theorem leaveAny_none (p : Progress) : p.leaveAny none = p := by simp [leaveAny]

def giveFormula (p : Progress) (formula : String) : Except UsageError Progress :=
  if p.options.file.isSome then .error (.conflict .argument .file)
  else .ok { p with options := { p.options with formula := some formula } }

def giveFile (p : Progress) (file : String) : Except UsageError Progress :=
  if p.options.formula.isSome then .error (.conflict .file .argument)
  else .ok { p with options := { p.options with file := some file } }

end Progress

abbrev Given := Flag × Option String

-- The options in one argument: all but the last are letters that take no value, and the last may
-- take its value from the next argument.
structure Cluster where
  given : List Given
  lacking : Option Flag
  leftOver : Option String
  deriving DecidableEq, Repr

namespace Cluster

def cons (flag : Flag) (c : Cluster) : Cluster := { c with given := (flag, none) :: c.given }

def one (flag : Flag) (value : Option String) : Cluster := ⟨[(flag, value)], none, none⟩

end Cluster

def single (flag : Flag) : Option String → Except UsageError Cluster
  | none => .ok (if flag.takesValue then ⟨[], some flag, none⟩ else .one flag none)
  | some value =>
    if flag.takesValue then .ok (.one flag (some value)) else .error (.valueIgnored flag value)

-- The letter of an option that takes no value, before characters that do not go on with the letter
-- of an option. What looks like a value is reported.
def cutShort (convention : Convention) (flag : Flag) (chars : List Char) :
    Except UsageError Cluster :=
  if convention = .older || chars.head? = some '-' then
    .error (.valueIgnored flag (String.ofList chars))
  else .ok { Cluster.one flag none with leftOver := some (String.ofList ('-' :: chars)) }

def unglue (convention : Convention) (flag : Flag) : List Char → Except UsageError Cluster
  | [] => single flag none
  | letter :: rest =>
    if flag.takesValue then .ok (.one flag (some (String.ofList (letter :: rest))))
    else
      match Flag.ofSpelling? (String.ofList ['-', letter]) with
      | none => cutShort convention flag (letter :: rest)
      | some next =>
        if convention = .newer && rest.head? = some '=' then
          (single next (some (String.ofList rest.tail))).map (.cons flag)
        else (unglue convention next rest).map (.cons flag)

def cluster (convention : Convention) (flag : Flag) : Attached → Except UsageError Cluster
  | .nothing => single flag none
  | .value value => single flag (some value)
  | .tail tail => unglue convention flag tail.toList

def follow (p : Progress) : List Given → Except UsageError (Option Progress)
  | [] => .ok (some p)
  | (.help, _) :: _ => .ok none
  | (.file, value) :: rest =>
    match p.giveFile (value.getD "") with
    | .error error => .error error
    | .ok p => follow p rest
  | (.full, _) :: rest => follow { p with options.full := true } rest
  | (.formsOnly, _) :: rest => follow { p with options.formsOnly := true } rest
  | (.quiet, _) :: rest => follow { p with options.quiet := true } rest
  | (.debug, _) :: rest => follow { p with options.debug := true } rest

def finish (p : Progress) : Except UsageError Request :=
  if p.options.formula.isNone && p.options.file.isNone then .error .sourceMissing
  else if !p.leftOver.isEmpty then .error (.unrecognized p.leftOver)
  else .ok (.run p.options)

-- Takes the arguments for the place of the formula, the first of them being `item`: one that is
-- plain, with a separator on either side. A separator by itself takes the place without filling it.
def takeFormula (item : Item) (rest : List Item) : Option String × List Item :=
  match item.shape, rest with
  | .separator, ⟨formula, .plain⟩ :: later => (some formula, later)
  | .separator, later => (none, later)
  | _, ⟨_, .separator⟩ :: later => (some item.argument, later)
  | _, later => (some item.argument, later)

theorem takeFormula_length (item : Item) (rest : List Item) :
    (takeFormula item rest).2.length ≤ rest.length := by
  unfold takeFormula
  split <;> simp only [List.length_cons] <;> omega

def understand (convention : Convention) (p : Progress) (arguments : List Item) :
    Except UsageError Request :=
  match arguments with
  | [] => finish p
  | item :: rest =>
    match item.shape with
    | .unknown => understand convention (p.leave item.argument) rest
    | .option flag attached =>
      match cluster convention flag attached with
      | .error error => .error error
      | .ok found =>
        match found.lacking, rest with
        | none, rest =>
          match follow p found.given with
          | .error error => .error error
          | .ok none => .ok .help
          | .ok (some p) => understand convention (p.leaveAny found.leftOver) rest
        | some lacking, ⟨value, .plain⟩ :: later =>
          match follow p (found.given ++ [(lacking, some value)]) with
          | .error error => .error error
          | .ok none => .ok .help
          | .ok (some p) => understand convention p later
        | some lacking, _ => .error (.valueMissing lacking)
    | .plain | .separator =>
      if p.formulaDue then
        match _taken : takeFormula item rest with
        | (none, later) => understand convention { p with formulaDue := false } later
        | (some formula, later) =>
          match p.giveFormula formula with
          | .error error => .error error
          | .ok p => understand convention { p with formulaDue := false } later
      else understand convention (p.leave item.argument) rest
termination_by arguments.length
decreasing_by
  · simp
  · simp
  · simp only [List.length_cons]; omega
  · have := takeFormula_length item rest
    simp only [_taken, List.length_cons] at *; omega
  · have := takeFormula_length item rest
    simp only [_taken, List.length_cons] at *; omega
  · simp

def read (convention : Convention) (arguments : List String) : Except UsageError Request :=
  match items convention arguments with
  | .error error => .error error
  | .ok items => understand convention .start items

end CommandLine

end TruthTables

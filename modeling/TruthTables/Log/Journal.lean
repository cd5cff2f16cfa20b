import TruthTables.Entries
import TruthTables.Log.Record
import TruthTables.Value

namespace TruthTables

structure Channel where
  level : Int
  outlets : List Int
  deriving DecidableEq, Repr

namespace Channel

def single (level : Int) : Channel := ⟨level, [level]⟩

def setLevel (c : Channel) (level : Int) : Channel := ⟨level, c.outlets.map fun _ => level⟩

def write (c : Channel) (r : Record) : List Record :=
  if c.level ≤ r.level then (c.outlets.filter (· ≤ r.level)).map fun _ => r else []

end Channel

structure Journal where
  channels : Entries Channel
  selected : Option String
  deriving DecidableEq, Repr

structure Verbosity where
  verbose : Bool
  debug : Bool
  deriving DecidableEq, Repr

structure UnknownSwitch where
  name : String
  deriving DecidableEq, Repr

def UnknownSwitch.message (error : UnknownSwitch) : String :=
  "configure_logging() got an unexpected keyword argument '" ++ error.name ++ "'"

namespace Verbosity

def least : Verbosity := ⟨false, false⟩

def turn (v : Verbosity) : List (String × Value) → Except UnknownSwitch Verbosity
  | [] => .ok v
  | (name, value) :: rest =>
    if name = "verbose" then turn { v with verbose := value.isTrue } rest
    else if name = "debug" then turn { v with debug := value.isTrue } rest
    else .error ⟨name⟩

def level (v : Verbosity) : Int :=
  if v.debug then Level.debug else if v.verbose then Level.info else Level.warning

end Verbosity

inductive JournalCall where
  | request (name : String)
  -- Makes a channel. One that has the name already loses its outlets and gets a new one.
  | create (name : String) (level : Int)
  | setLevelOf (name : String) (level : Int)
  | setLevel (level : Int)
  | configure (verbosity : Verbosity)
  | logTo (name : String) (records : List Record)
  | log (records : List Record)
  deriving DecidableEq, Repr

inductive JournalAction where
  | select (name : String)
  | create (name : String) (level : Int)
  | setLevel (level : Int)
  | configure (verbosity : Verbosity)
  | log (records : List Record)
  deriving DecidableEq, Repr

namespace Journal

def empty : Journal := ⟨[], none⟩

def defaultName : String := "tabula"

def rootName : String := "root"

def channelName (name : String) : String := if name.isEmpty then rootName else name

def create (j : Journal) (name : String) (level : Int) : Journal :=
  { j with channels := j.channels.set (channelName name) (Channel.single level) }

-- The name of the selected channel, which is made at the level of information if none was selected.
def select (j : Journal) (name : String) : String × Journal :=
  match j.selected with
  | some selected => (selected, j)
  | none =>
    (channelName name, { j.create name Level.info with selected := some (channelName name) })

def current (j : Journal) : Channel :=
  match j.selected with
  | none => Channel.single Level.info
  | some name => (j.channels.get? name).getD (Channel.single Level.info)

def setLevel (j : Journal) (level : Int) : Journal :=
  let (name, j) := j.select defaultName
  { j with channels := j.channels.set name (j.current.setLevel level) }

def configure (j : Journal) (verbosity : Verbosity) : Journal := j.setLevel verbosity.level

def written (j : Journal) (records : List Record) : List Record := records.flatMap j.current.write

def channel? (j : Journal) (name : String) : Option Channel := j.channels.get? (channelName name)

def setLevelOf (j : Journal) (name : String) (level : Int) : Journal :=
  match j.channel? name with
  | none => j
  | some c => { j with channels := j.channels.set (channelName name) (c.setLevel level) }

def writtenTo (j : Journal) (name : String) (records : List Record) : List Record :=
  match j.channel? name with
  | none => []
  | some c => records.flatMap c.write

def call (j : Journal) : JournalCall → List Record × Journal
  | .request name => ([], (j.select name).2)
  | .create name level => ([], j.create name level)
  | .setLevelOf name level => ([], j.setLevelOf name level)
  | .setLevel level => ([], j.setLevel level)
  | .configure verbosity => ([], j.configure verbosity)
  | .logTo name records => (j.writtenTo name records, j)
  | .log records =>
    let j := (j.select defaultName).2
    (j.written records, j)

def act (j : Journal) : JournalAction → List Record × Journal
  | .select name => j.call (.request name)
  | .create name level => (j.call (.request defaultName)).2.call (.create name level)
  | .setLevel level => j.call (.setLevel level)
  | .configure verbosity => j.call (.configure verbosity)
  | .log records => j.call (.log records)

end Journal

end TruthTables

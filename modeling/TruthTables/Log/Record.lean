namespace TruthTables

namespace Level

def debug : Int := 10

def info : Int := 20

def warning : Int := 30

def error : Int := 40

end Level

structure Record where
  level : Int
  message : String
  deriving DecidableEq, Repr

namespace Record

def debug (message : String) : Record := ⟨Level.debug, message⟩

def info (message : String) : Record := ⟨Level.info, message⟩

def warning (message : String) : Record := ⟨Level.warning, message⟩

def error (message : String) : Record := ⟨Level.error, message⟩

-- The record as it is written. What is meant for the user is the message alone; what is below that
-- carries a mark.
def line (r : Record) : String :=
  let mark :=
    if Level.info ≤ r.level then ""
    else if r.level = Level.debug then "[DEBUG] "
    else "[Level " ++ toString r.level ++ "] "
  mark ++ r.message ++ "\n"

end Record

end TruthTables

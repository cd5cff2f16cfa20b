import TruthTables.Entries
import TruthTables.Value

namespace TruthTables

abbrev Assignment := Entries Bool

def bitValue (bit : Bool) : Int := if bit then 1 else 0

structure BindingError where
  name : String
  value : Value
  deriving Repr, BEq

def BindingError.message (error : BindingError) : String :=
  match error.value.written with
  | .error tooLong => tooLong.message
  | .ok value => "Binding for '" ++ error.name ++ "' must be 0 or 1, got " ++ value

namespace Assignment

def ofEntries : Entries Value → Except BindingError Assignment
  | [] => .ok []
  | (name, value) :: rest =>
    match value.bit? with
    | none => .error ⟨name, value⟩
    | some bit =>
      match ofEntries rest with
      | .error error => .error error
      | .ok bits => .ok ((name, bit) :: bits)

-- The assignment that a list of bindings makes. Of two bindings of one name only the later is
-- looked at.
def ofBindings (bindings : List (String × Value)) : Except BindingError Assignment :=
  ofEntries (Entries.ofPairs bindings)

def written (assignment : Assignment) : String :=
  Text.bracketed "\x7b" "\x7d" (assignment.map fun (name, bit) =>
    Text.quote name ++ ": " ++ toString (bitValue bit))

end Assignment

end TruthTables

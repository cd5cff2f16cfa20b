import TruthTables.Proofs.Classification

namespace TruthTables

def bitFloat (bit : Bool) : Float := if bit then 1 else 0

inductive Value.Equals : Value → Bool → Prop where
  | bool (bit : Bool) : Equals (.bool bit) bit
  | int (bit : Bool) : Equals (.int (bitValue bit)) bit
  | float {x : Float} {bit : Bool} (equal : x == bitFloat bit) : Equals (.float x) bit

def Mentions (given : List (String × Value)) (names : List String) : Prop :=
  ∀ name, name ∈ (Entries.ofPairs given).keys ↔ name ∈ names

def Spells (given : List (String × Value)) (bits : String → Bool) : Prop :=
  ∀ entry ∈ Entries.ofPairs given, entry.2.Equals (bits entry.1)

-- The first of the bindings whose value is no bit.
def BindingError.IsFirst (error : BindingError) (entries : Entries Value) : Prop :=
  ∃ front back, entries = front ++ (error.name, error.value) :: back ∧
    (∀ entry ∈ front, ∃ bit, entry.2.Equals bit) ∧ ∀ bit, ¬error.value.Equals bit

section Values

variable {value : Value} {bit : Bool} {given : List (String × Value)} {names : List String}
  {bits : String → Bool}

end Values

section Names

variable {names bound : List String}

end Names

namespace Analysis

variable {text : String} {parsed : Parsed} {given : List (String × Value)}

section Formulas

variable (accepted : parse text = .ok parsed)
include accepted

variable {a : Analysis} (known : a.Of parsed.root)
include known

end Formulas

end Analysis

end TruthTables

import TruthTables.Arithmetic
import TruthTables.Assignment.Basic

namespace TruthTables

def vectors : Nat → List (List Bool)
  | 0 => [[]]
  | n + 1 => (vectors n).map (false :: ·) ++ (vectors n).map (true :: ·)

namespace Assignment

def ofVector (names : List String) (vector : List Bool) : Assignment :=
  Entries.ofPairs (names.zip vector)

def all (names : List String) : List Assignment :=
  (vectors names.length).map (ofVector names)

-- How many there are, known before any of them is made. It has to be a length that a list can have.
def countAll (names : List String) : Except ArithmeticError Nat :=
  let count := Nat.pow 2 names.length
  if lengthBound ≤ count then .error .beyondLength else .ok count

end Assignment

-- A place in the enumeration of the vectors of one length. Each pending list of bits stands for the
-- vectors that begin with it; the first of them is due next.
structure Cursor where
  width : Nat
  pending : List (List Bool)
  deriving DecidableEq, Repr

namespace Cursor

def start (width : Nat) : Cursor := ⟨width, [[]]⟩

def descend : Nat → List Bool → List (List Bool) → List Bool × List (List Bool)
  | 0, vector, pending => (vector, pending)
  | missing + 1, vector, pending =>
    descend missing (vector ++ [false]) ((vector ++ [true]) :: pending)

def next (cursor : Cursor) : Option (List Bool) × Cursor :=
  match cursor.pending with
  | [] => (none, cursor)
  | first :: rest =>
    let (vector, pending) := descend (cursor.width - first.length) first rest
    (some vector, { cursor with pending })

def take : Nat → Cursor → List (List Bool) × Cursor
  | 0, cursor => ([], cursor)
  | count + 1, cursor =>
    match cursor.next with
    | (none, cursor) => ([], cursor)
    | (some vector, cursor) =>
      let (vectors, cursor) := take count cursor
      (vector :: vectors, cursor)

end Cursor

abbrev Walks := List Cursor

namespace Walks

def next (walks : Walks) (number : Nat) : Option (List Bool) × Walks :=
  match walks[number]? with
  | none => (none, walks)
  | some cursor =>
    let (vector, cursor) := cursor.next
    (vector, walks.set number cursor)

def run (walks : Walks) : List Nat → List (Nat × Option (List Bool)) × Walks
  | [] => ([], walks)
  | number :: rest =>
    let (vector, walks) := walks.next number
    let (yields, walks) := walks.run rest
    ((number, vector) :: yields, walks)

end Walks

end TruthTables

namespace TruthTables

abbrev Entries (α : Type) := List (String × α)

namespace Entries

variable {α : Type}

def get? : Entries α → String → Option α
  | [], _ => none
  | (key, value) :: rest, name => if key = name then some value else get? rest name

def set : Entries α → String → α → Entries α
  | [], name, value => [(name, value)]
  | (key, old) :: rest, name, value =>
    if key = name then (key, value) :: rest else (key, old) :: set rest name value

def keys (entries : Entries α) : List String := entries.map (·.1)

-- Enters the pairs one after the other: of two with one name the first gives the place and the last
-- the value.
def ofPairs (pairs : List (String × α)) : Entries α :=
  pairs.foldl (fun entries (name, value) => set entries name value) []

def lastKey? (entries : Entries α) : Option String := (keys entries).getLast?

@[simp] theorem ofPairs_nil : ofPairs ([] : List (String × α)) = [] := rfl

@[simp] theorem get?_set (entries : Entries α) (name other : String) (value : α) :
    get? (set entries name value) other =
      if name = other then some value else get? entries other := by
  induction entries with
  | nil => simp [set, get?]
  | cons entry rest ih =>
    obtain ⟨key, old⟩ := entry
    by_cases here : key = name
    · subst here
      by_cases same : key = other <;> simp [set, get?, same]
    · simp only [set, here, ↓reduceIte, get?, ih]
      by_cases found : key = other
      · subst found
        simp [Ne.symm here]
      · simp [found]

end Entries

end TruthTables

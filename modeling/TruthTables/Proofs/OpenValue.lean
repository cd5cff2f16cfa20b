import TruthTables.Expr.Truth
import TruthTables.Valuation

namespace TruthTables

namespace Assignment

variable {bindings : Assignment}

def bit (bindings : Assignment) (name : String) : Bool := (bindings.get? name).getD false

def Binds (bindings : Assignment) (name : String) : Prop := (bindings.get? name).isSome

instance (name : String) : Decidable (bindings.Binds name) :=
  inferInstanceAs (Decidable ((bindings.get? name).isSome = true))

theorem ofEntries_get? {entries : Entries Value}
    (bits : ∀ entry ∈ entries, entry.2.bit?.isSome) :
    ∃ bindings, ofEntries entries = .ok bindings ∧
      ∀ name, bindings.get? name = (entries.get? name).bind Value.bit? := by
  induction entries with
  | nil => exact ⟨[], rfl, fun _ => rfl⟩
  | cons entry rest ih =>
    obtain ⟨name, value⟩ := entry
    obtain ⟨later, made, same⟩ := ih fun other member => bits other (List.mem_cons_of_mem _ member)
    obtain ⟨bit, equal⟩ := Option.isSome_iff_exists.mp (bits (name, value) (by simp))
    refine ⟨(name, bit) :: later, by simp [ofEntries, show value.bit? = some bit from equal, made],
      fun other => ?_⟩
    by_cases here : name = other
    · simp [Entries.get?, here, show value.bit? = some bit from equal]
    · simp [Entries.get?, here, same other]

end Assignment

namespace Expr

def Bound (bindings : Assignment) (e : Expr) : Prop := ∀ name ∈ e.names, bindings.Binds name

instance (bindings : Assignment) (e : Expr) : Decidable (e.Bound bindings) :=
  inferInstanceAs (Decidable (∀ name ∈ e.names, bindings.Binds name))

def valueUnder (bindings : Assignment) (e : Expr) : TruthValue :=
  if e.Bound bindings then .ofBit (e.truth bindings.bit) else .symbolic e.text

variable {bindings : Assignment} {e left right : Expr} {c : Connective}

@[simp] theorem bound_not : (Expr.not e).Bound bindings ↔ e.Bound bindings := Iff.rfl

@[simp] theorem bound_binary :
    (binary c left right).Bound bindings ↔ left.Bound bindings ∧ right.Bound bindings := by
  simp only [Bound, names, List.mem_append]
  constructor
  · intro both
    exact ⟨fun name member => both name (.inl member), fun name member => both name (.inr member)⟩
  · rintro ⟨first, second⟩ name (front | back)
    · exact first name front
    · exact second name back

@[simp] theorem bit?_ofBit (bit : Bool) : (TruthValue.ofBit bit).bit? = some bit := by
  cases bit <;> rfl

theorem bit?_valueUnder (bindings : Assignment) (e : Expr) :
    (e.valueUnder bindings).bit? =
      if e.Bound bindings then some (e.truth bindings.bit) else none := by
  unfold valueUnder
  split
  · exact bit?_ofBit _
  · rfl

theorem isKnown_valueUnder : (e.valueUnder bindings).isKnown ↔ e.Bound bindings := by
  rw [TruthValue.isKnown, bit?_valueUnder]
  split
  · rename_i bound
    exact ⟨fun _ => bound, fun _ => rfl⟩
  · rename_i free
    exact ⟨fun known => Bool.noConfusion known, fun bound => absurd bound free⟩

theorem valueUnder_atom (name : String) :
    (atom name).valueUnder bindings =
      match bindings.get? name with
      | some bit => .ofBit bit
      | none => .symbolic name := by
  unfold valueUnder
  cases found : bindings.get? name <;>
    simp [Bound, names, Assignment.Binds, Assignment.bit, found, truth, text]

theorem valueUnder_not :
    (Expr.not e).valueUnder bindings =
      .orText ((e.valueUnder bindings).bit?.map Bool.not) (Expr.not e).text := by
  rw [bit?_valueUnder, valueUnder]
  by_cases bound : e.Bound bindings
  · simp [bound, truth, TruthValue.orText]
  · simp [bound, TruthValue.orText]

-- One open operand leaves the application open, also where the other one would decide it.
theorem valueUnder_binary :
    (binary c left right).valueUnder bindings =
      .orText (c.solve (left.valueUnder bindings).bit? (right.valueUnder bindings).bit?)
        (binary c left right).text := by
  rw [bit?_valueUnder, bit?_valueUnder, valueUnder]
  by_cases first : left.Bound bindings
  · by_cases second : right.Bound bindings
    · simp [first, second, truth, TruthValue.orText, Connective.solve]
    · simp [first, second, TruthValue.orText, Connective.solve]
  · simp [first, TruthValue.orText, Connective.solve]

end Expr

end TruthTables

import Mathlib
import TruthTables.Assignment.Enumeration
import TruthTables.Proofs.OpenValue

namespace TruthTables

theorem mem_vectors {n : Nat} {vector : List Bool} : vector ∈ vectors n ↔ vector.length = n := by
  induction n generalizing vector with
  | zero => simp [vectors]
  | succ n ih =>
    cases vector with
    | nil => simp [vectors]
    | cons bit rest => cases bit <;> simp [vectors, ih]

namespace Entries

variable {α : Type} {entries : Entries α} {name : String} {value : α}

theorem set_of_fresh (fresh : name ∉ entries.keys) :
    entries.set name value = entries ++ [(name, value)] := by
  induction entries with
  | nil => rfl
  | cons entry rest ih =>
    obtain ⟨key, old⟩ := entry
    simp only [keys, List.map_cons, List.mem_cons, not_or] at fresh
    rw [set, if_neg (Ne.symm fresh.1), ih fresh.2]
    rfl

theorem get?_append_of_fresh (back : Entries α) (fresh : name ∉ entries.keys) :
    get? (entries ++ back) name = get? back name := by
  induction entries with
  | nil => rfl
  | cons entry rest ih =>
    obtain ⟨key, old⟩ := entry
    simp only [keys, List.map_cons, List.mem_cons, not_or] at fresh
    rw [List.cons_append, get?, if_neg (Ne.symm fresh.1), ih fresh.2]

theorem foldl_set_of_nodup {pairs : List (String × α)}
    (distinct : (keys (entries ++ pairs)).Nodup) :
    pairs.foldl (fun entries (name, value) => set entries name value) entries =
      entries ++ pairs := by
  induction pairs generalizing entries with
  | nil => simp
  | cons pair rest ih =>
    obtain ⟨name, value⟩ := pair
    rw [List.append_cons] at distinct
    have front : (keys (entries ++ [(name, value)])).Nodup := by
      rw [keys, List.map_append] at distinct
      exact (List.nodup_append.mp distinct).1
    have fresh : name ∉ entries.keys := by
      rw [keys, List.map_append] at front
      intro member
      exact (List.nodup_append.mp front).2.2 name member name (by simp) rfl
    have step : entries.set name value = entries ++ [(name, value)] := set_of_fresh fresh
    simp only [List.foldl_cons, step]
    rw [ih distinct, ← List.append_cons]

theorem ofPairs_of_nodup {pairs : List (String × α)} (distinct : (keys pairs).Nodup) :
    ofPairs pairs = pairs :=
  foldl_set_of_nodup distinct

end Entries

namespace Assignment

variable {names : List String} {bits : String → Bool}

theorem countAll_eq (names : List String) :
    countAll names =
      if names.length < 63 then .ok (2 ^ names.length) else .error .beyondLength := by
  have bound : lengthBound ≤ Nat.pow 2 names.length ↔ ¬names.length < 63 := by
    rw [not_lt]
    exact Nat.pow_le_pow_iff_right (by decide)
  rw [countAll]
  split <;> rename_i fits <;> rw [bound] at fits
  · rw [if_neg fits]
  · rw [if_pos (not_not.mp fits)]
    rfl

theorem ofVector_eq {vector : List Bool} (distinct : names.Nodup)
    (full : vector.length = names.length) : ofVector names vector = names.zip vector := by
  apply Entries.ofPairs_of_nodup
  rw [Entries.keys, List.map_fst_zip (Nat.le_of_eq full.symm)]
  exact distinct

theorem get?_zip_map (names : List String) (bits : String → Bool) (name : String) :
    Entries.get? (names.zip (names.map bits)) name =
      if name ∈ names then some (bits name) else none := by
  induction names with
  | nil => rfl
  | cons first rest ih =>
    by_cases here : first = name
    · simp [Entries.get?, here]
    · simp [Entries.get?, here, ih, Ne.symm here]

theorem exists_of_bits (distinct : names.Nodup) (bits : String → Bool) :
    ∃ assignment ∈ all names, ∀ name ∈ names, assignment.get? name = some (bits name) := by
  refine ⟨ofVector names (names.map bits), ?_, ?_⟩
  · exact List.mem_map_of_mem (mem_vectors.mpr (List.length_map ..))
  · intro name member
    rw [ofVector_eq distinct (List.length_map ..), get?_zip_map, if_pos member]

theorem get?_isSome_zip {vector : List Bool} (full : vector.length = names.length)
    {name : String} (member : name ∈ names) :
    (Entries.get? (names.zip vector) name).isSome := by
  induction names generalizing vector with
  | nil => cases member
  | cons first rest ih =>
    cases vector with
    | nil => cases full
    | cons bit later =>
      by_cases here : first = name
      · simp [Entries.get?, here]
      · have within : name ∈ rest := by simpa [Ne.symm here] using member
        simpa [Entries.get?, here] using ih (Nat.succ.inj full) within

theorem binds_of_mem_all (distinct : names.Nodup) {assignment : Assignment}
    (listed : assignment ∈ all names) {name : String} (member : name ∈ names) :
    assignment.Binds name := by
  obtain ⟨vector, sized, rfl⟩ := List.mem_map.mp listed
  have full := mem_vectors.mp sized
  rw [ofVector_eq distinct full]
  exact get?_isSome_zip full member

end Assignment

end TruthTables

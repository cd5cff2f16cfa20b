import TruthTables.Proofs.Conjunctions
import TruthTables.Proofs.RowNumbers

namespace TruthTables

namespace Cursor

def completions (width : Nat) (front : List Bool) : List (List Bool) :=
  (vectors (width - front.length)).map (front ++ ·)

def remaining (cursor : Cursor) : List (List Bool) :=
  cursor.pending.flatMap (completions cursor.width)

variable {width : Nat} {front : List Bool}

@[simp] theorem remaining_start (width : Nat) : (start width).remaining = vectors width := by
  simp [remaining, start, completions]

theorem completions_of_full (full : width - front.length = 0) :
    completions width front = [front] := by
  rw [completions, full]
  simp [vectors]

theorem completions_of_missing {missing : Nat} (short : width - front.length = missing + 1) :
    completions width front =
      completions width (front ++ [false]) ++ completions width (front ++ [true]) := by
  have later (bit : Bool) : width - (front ++ [bit]).length = missing := by
    rw [List.length_append, List.length_singleton]
    omega
  have inner (bit : Bool) : completions width (front ++ [bit]) =
      (vectors missing).map (front ++ bit :: ·) := by
    simp only [completions, later, List.append_assoc, List.singleton_append]
  rw [inner, inner, completions, short, vectors, List.map_append, List.map_map, List.map_map]
  rfl

-- To descend is to bring the first of the vectors that begin alike to the front; the pending lists
-- keep the others, in their order.
theorem descend_eq (missing : Nat) (front : List Bool) (pending : List (List Bool))
    (short : width - front.length = missing) :
    (descend missing front pending).1 ::
        (descend missing front pending).2.flatMap (completions width) =
      completions width front ++ pending.flatMap (completions width) := by
  induction missing generalizing front pending with
  | zero => rw [completions_of_full short, descend, List.singleton_append]
  | succ missing ih =>
    have shorter : width - (front ++ [false]).length = missing := by
      rw [List.length_append, List.length_singleton]
      omega
    rw [descend, ih _ _ shorter, List.flatMap_cons, completions_of_missing short,
      List.append_assoc]

theorem next_eq (cursor : Cursor) :
    cursor.next.1 = cursor.remaining.head? ∧
      cursor.next.2.remaining = cursor.remaining.tail := by
  obtain ⟨width, pending⟩ := cursor
  cases pending with
  | nil => exact ⟨rfl, rfl⟩
  | cons front rest =>
    have split := descend_eq (width - front.length) front rest rfl
    have remaining : remaining ⟨width, front :: rest⟩ =
        completions width front ++ rest.flatMap (completions width) := rfl
    rw [remaining, ← split]
    exact ⟨rfl, rfl⟩

theorem take_eq (limit : Nat) (cursor : Cursor) :
    (cursor.take limit).1 = cursor.remaining.take limit := by
  induction limit generalizing cursor with
  | zero => rfl
  | succ limit ih =>
    obtain ⟨first, later⟩ := cursor.next_eq
    rcases stepped : cursor.next with ⟨vector, after⟩
    rw [stepped] at first later
    cases left : cursor.remaining with
    | nil =>
      rw [left] at first
      cases first
      simp only [take, stepped, List.take_nil]
    | cons head tail =>
      rw [left] at first later
      cases first
      simp only [take, stepped, ih, later, List.tail_cons, List.take_succ_cons]

end Cursor

namespace Walks

variable {walks : Walks} {asked number : Nat} {cursor : Cursor}

-- What the walk with the number yields while the requests are served: an answer for each request
-- that is made of it.
def yields (walks : Walks) (requests : List Nat) (number : Nat) : List (Option (List Bool)) :=
  (walks.run requests).1.filterMap fun (asked, vector) =>
    if asked = number then some vector else none

theorem next_of_found (found : walks[number]? = some cursor) :
    walks.next number = (cursor.next.1, walks.set number cursor.next.2) := by
  simp only [next, found]

theorem next_of_ne (other : asked ≠ number) :
    (walks.next asked).2[number]? = walks[number]? := by
  unfold next
  split
  · rfl
  · exact List.getElem?_set_ne other

theorem yields_cons (asked : Nat) (rest : List Nat) :
    walks.yields (asked :: rest) number =
      (if asked = number then [(walks.next asked).1] else []) ++
        (walks.next asked).2.yields rest number := by
  unfold yields
  rw [run]
  by_cases same : asked = number <;> simp [same]

-- The induction is on the requests: one of the walk itself takes the first vector to come, and one
-- of another walk leaves it where it is.
theorem yields_eq (found : walks[number]? = some cursor) (requests : List Nat) :
    walks.yields requests number =
      (List.range (requests.count number)).map fun place => cursor.remaining[place]? := by
  induction requests generalizing walks cursor with
  | nil => rfl
  | cons asked rest ih =>
    rw [yields_cons]
    by_cases same : asked = number
    · subst same
      obtain ⟨first, later⟩ := cursor.next_eq
      have moved : (walks.next asked).2[asked]? = some cursor.next.2 := by
        rw [next_of_found found]
        exact List.getElem?_set_self (List.getElem?_eq_some_iff.mp found).1
      rw [ih moved, next_of_found found, if_pos rfl, first, later, List.count_cons_self,
        List.range_succ_eq_map, List.map_cons, List.map_map, List.head?_eq_getElem?,
        List.singleton_append]
      congr 1
      apply List.map_congr_left
      intro place _
      exact List.getElem?_tail
    · rw [if_neg same, List.nil_append, ih ((next_of_ne same).trans found),
        List.count_cons_of_ne same]

end Walks

section Names

variable {names : List String}

theorem rowAssignment_eq (distinct : names.Nodup) (row : Nat) :
    rowAssignment names row = names.zip (digits names.length row) := by
  rw [rowAssignment, digits_names distinct]

theorem Assignment.all_getElem? (distinct : names.Nodup) (row : Nat) :
    (all names)[row]? =
      if row < 2 ^ names.length then some (rowAssignment names row) else none := by
  rw [all_eq distinct, List.getElem?_map]
  by_cases small : row < 2 ^ names.length
  · rw [if_pos small, List.getElem?_range small]
    rfl
  · rw [if_neg small, List.getElem?_eq_none (by simpa using small)]
    rfl

theorem Assignment.listed_iff (distinct : names.Nodup) (bits : String → Bool) (row : Nat) :
    (∃ a : Assignment, (all names)[row]? = some a ∧
        ∀ name ∈ names, a.get? name = some (bits name)) ↔
      row < 2 ^ names.length ∧ ∀ name ∈ names, rowBits names row name = bits name := by
  have given {name : String} (member : name ∈ names) :
      (rowAssignment names row).get? name = some (rowBits names row name) := by
    rw [rowAssignment, get?_zip_map, if_pos member]
  rw [all_getElem? distinct]
  constructor
  · rintro ⟨a, found, same⟩
    split at found
    · rename_i small
      cases found
      refine ⟨small, fun name member => ?_⟩
      exact Option.some.inj ((given member).symm.trans (same name member))
    · cases found
  · rintro ⟨small, same⟩
    refine ⟨_, if_pos small, fun name member => ?_⟩
    rw [given member, same name member]

end Names

-- The walk has not been asked yet. The others may stand anywhere and be of any width, so it does
-- not matter when it was begun.
theorem every_walk_lists_the_vectors_in_order (names : List String) :
    ((vectors names.length).length = 2 ^ names.length ∧
      Assignment.countAll names =
        (if names.length < 63 then .ok (2 ^ names.length) else .error .beyondLength) ∧
      (∀ vector ∈ vectors names.length, vector.length = names.length) ∧
      ∀ row < 2 ^ names.length, (vectors names.length)[row]? = some (digits names.length row)) ∧
    (∀ limit, ((Cursor.start names.length).take limit).1 = (vectors names.length).take limit) ∧
    (names.Nodup →
      (Assignment.all names).length = 2 ^ names.length ∧
      (∀ row < 2 ^ names.length,
        (Assignment.all names)[row]? = some (names.zip (digits names.length row))) ∧
      ∀ bits : String → Bool, ∃! row : Nat, ∃ a : Assignment,
        (Assignment.all names)[row]? = some a ∧ ∀ name ∈ names, a.get? name = some (bits name)) ∧
    ∀ (walks : Walks) (requests : List Nat) (number : Nat),
      walks[number]? = some (.start names.length) →
      walks.yields requests number =
        (List.range (requests.count number)).map fun place => (vectors names.length)[place]? := by
  have size : (vectors names.length).length = 2 ^ names.length := by
    rw [vectors_eq, List.length_map, List.length_range]
  refine ⟨⟨size, Assignment.countAll_eq names, fun vector => mem_vectors.mp, fun row small => ?_⟩,
    fun limit => ?_, fun distinct => ⟨?_, fun row small => ?_, fun bits => ?_⟩,
    fun walks requests number begun => ?_⟩
  · rw [vectors_eq, List.getElem?_map, List.getElem?_range small]
    rfl
  · rw [Cursor.take_eq, Cursor.remaining_start]
  · rw [Assignment.all, List.length_map, size]
  · rw [Assignment.all_getElem? distinct, if_pos small, rowAssignment_eq distinct]
  · rw [existsUnique_congr (Assignment.listed_iff distinct bits)]
    exact existsUnique_row distinct bits
  · rw [Walks.yields_eq begun, Cursor.remaining_start]

-- A walk of which more is asked than there is, beside one that has come to its second half.
theorem every_walk_lists_the_vectors_in_order_beside_another :
    let names := ["b", "a"]
    let walks : Walks := [⟨2, [[true]]⟩, .start 2]
    (names.Nodup ∧ walks[1]? = some (.start 2)) ∧
      (Assignment.all names)[2]? = some [("b", true), ("a", false)] ∧
      walks.yields [1, 0, 1, 0, 0, 1, 1, 0, 1] 1 =
        [some [false, false], some [false, true], some [true, false], some [true, true], none] := by
  intro names walks
  have distinct : names.Nodup := by decide
  obtain ⟨_, _, bindings, walk⟩ := every_walk_lists_the_vectors_in_order names
  obtain ⟨_, rows, _⟩ := bindings distinct
  have third : names.zip (digits names.length 2) = [("b", true), ("a", false)] := by decide
  have place := rows 2 (by decide)
  rw [third] at place
  exact ⟨⟨distinct, rfl⟩, place, walk walks [1, 0, 1, 0, 0, 1, 1, 0, 1] 1 rfl⟩

theorem vectors_of_many_names_are_not_counted :
    wideNames.length = 63 ∧ (vectors wideNames.length).length = 2 ^ 63 ∧
      Assignment.countAll wideNames = .error .beyondLength := by
  have size : wideNames.length = 63 := by decide
  refine ⟨size, ?_, ?_⟩
  · rw [vectors_eq, List.length_map, List.length_range, size]
  · rw [Assignment.countAll_eq, size]
    rfl

end TruthTables

import Mathlib.Data.List.Induction
import Mathlib.Data.List.Nodup

namespace TruthTables

variable {α : Type} [DecidableEq α]

def enlist (seen : List α) (item : α) : List α := if item ∈ seen then seen else seen ++ [item]

def enlistAll (seen items : List α) : List α := items.foldl enlist seen

@[simp] theorem enlistAll_nil (seen : List α) : enlistAll seen [] = seen := rfl

@[simp] theorem enlistAll_singleton (seen : List α) (item : α) :
    enlistAll seen [item] = enlist seen item := rfl

theorem enlistAll_append (seen front back : List α) :
    enlistAll seen (front ++ back) = enlistAll (enlistAll seen front) back :=
  List.foldl_append ..

@[simp] theorem mem_enlist {seen : List α} {item x : α} :
    x ∈ enlist seen item ↔ x ∈ seen ∨ x = item := by
  unfold enlist
  split
  · rename_i known
    constructor
    · exact .inl
    · rintro (old | rfl)
      · exact old
      · exact known
  · simp

@[simp] theorem mem_enlistAll {seen items : List α} {x : α} :
    x ∈ enlistAll seen items ↔ x ∈ seen ∨ x ∈ items := by
  induction items generalizing seen with
  | nil => simp
  | cons item rest ih =>
    have step : enlistAll seen (item :: rest) = enlistAll (enlist seen item) rest := rfl
    simp [step, ih, or_assoc]

theorem nodup_enlist {seen : List α} (distinct : seen.Nodup) (item : α) :
    (enlist seen item).Nodup := by
  unfold enlist
  split
  · exact distinct
  · rename_i fresh
    exact List.nodup_append.mpr ⟨distinct, by simp, fun x old y single same => by
      rw [List.mem_singleton.mp single] at same
      exact fresh (same ▸ old)⟩

theorem nodup_enlistAll {seen : List α} (distinct : seen.Nodup) (items : List α) :
    (enlistAll seen items).Nodup := by
  induction items generalizing seen with
  | nil => exact distinct
  | cons item rest ih => exact ih (nodup_enlist distinct item)

theorem enlistAll_of_subset {seen items : List α} (known : ∀ x ∈ items, x ∈ seen) :
    enlistAll seen items = seen := by
  induction items generalizing seen with
  | nil => rfl
  | cons item rest ih =>
    have step : enlist seen item = seen := if_pos (known item (by simp))
    rw [enlistAll, List.foldl_cons, step]
    exact ih fun x later => known x (List.mem_cons_of_mem _ later)

theorem enlistAll_of_nodup {seen items : List α} (distinct : (seen ++ items).Nodup) :
    enlistAll seen items = seen ++ items := by
  induction items generalizing seen with
  | nil => simp
  | cons item rest ih =>
    rw [List.append_cons] at distinct
    have fresh : item ∉ seen := by
      have front := (List.nodup_append.mp distinct).1
      intro old
      exact (List.nodup_append.mp front).2.2 item old item (by simp) rfl
    have step : enlist seen item = seen ++ [item] := if_neg fresh
    have later : enlistAll seen (item :: rest) = enlistAll (enlist seen item) rest := rfl
    rw [later, step, ih distinct, ← List.append_cons]

theorem enlistAll_map {β : Type} [DecidableEq β] {f : α → β} (injective : Function.Injective f)
    (seen items : List α) :
    enlistAll (seen.map f) (items.map f) = (enlistAll seen items).map f := by
  induction items generalizing seen with
  | nil => rfl
  | cons item rest ih =>
    have step : enlist (seen.map f) (f item) = (enlist seen item).map f := by
      by_cases known : item ∈ seen <;> simp [enlist, injective.eq_iff, known]
    rw [List.map_cons, enlistAll, List.foldl_cons, step]
    exact ih (enlist seen item)

theorem enlistAll_filter (p : α → Bool) (seen items : List α) :
    (enlistAll seen items).filter p = enlistAll (seen.filter p) (items.filter p) := by
  induction items generalizing seen with
  | nil => rfl
  | cons item rest ih =>
    have later : enlistAll seen (item :: rest) = enlistAll (enlist seen item) rest := rfl
    cases kept : p item with
    | true =>
      have step : (enlist seen item).filter p = enlist (seen.filter p) item := by
        by_cases known : item ∈ seen <;> simp [enlist, known, kept]
      rw [later, ih, step, List.filter_cons_of_pos kept]
      rfl
    | false =>
      have step : (enlist seen item).filter p = seen.filter p := by
        by_cases known : item ∈ seen <;> simp [enlist, known, kept]
      rw [later, ih, step, List.filter_cons_of_neg (by simp [kept])]

theorem enlistAll_eq_eraseDups (items : List α) : enlistAll [] items = items.eraseDups := by
  induction items using List.reverseRecOn with
  | nil => rfl
  | append_singleton front item ih =>
    rw [enlistAll_append, ih, enlistAll_singleton, List.eraseDups_append]
    unfold enlist
    by_cases known : item ∈ front
    · simp [known, List.removeAll]
    · simp [known, List.removeAll, List.eraseDups_cons]

theorem nodup_eraseDups (items : List α) : items.eraseDups.Nodup := by
  rw [← enlistAll_eq_eraseDups]
  exact nodup_enlistAll .nil items

theorem eraseDups_map {β : Type} [DecidableEq β] {f : α → β} (injective : Function.Injective f)
    (items : List α) : (items.map f).eraseDups = items.eraseDups.map f := by
  rw [← enlistAll_eq_eraseDups, ← enlistAll_eq_eraseDups]
  exact enlistAll_map injective [] items

theorem eraseDups_filter (p : α → Bool) (items : List α) :
    (items.filter p).eraseDups = items.eraseDups.filter p := by
  rw [← enlistAll_eq_eraseDups, ← enlistAll_eq_eraseDups]
  exact (enlistAll_filter p [] items).symm

theorem eraseDups_append_singleton {front : List α} {item : α} (fresh : item ∉ front) :
    (front ++ [item]).eraseDups = front.eraseDups ++ [item] := by
  rw [← enlistAll_eq_eraseDups, enlistAll_append, enlistAll_singleton, enlistAll_eq_eraseDups]
  exact if_neg fun known => fresh (List.mem_eraseDups.mp known)

theorem enlistAll_eq_append (seen items : List α) :
    enlistAll seen items = seen ++ items.eraseDups.filter fun item => item ∉ seen := by
  rw [← eraseDups_filter]
  induction items using List.reverseRecOn with
  | nil => simp
  | append_singleton front item ih =>
    rw [enlistAll_append, enlistAll_singleton, ih, List.filter_append]
    by_cases known : item ∈ seen
    · simp [enlist, known]
    · have kept : [item].filter (fun item => item ∉ seen) = [item] := by simp [known]
      rw [kept]
      by_cases met : item ∈ front
      · simp [enlist, known, met, List.eraseDups_append, List.removeAll]
      · have fresh : item ∉ front.filter fun item => item ∉ seen := by simp [met]
        rw [eraseDups_append_singleton fresh, ← List.append_assoc]
        exact if_neg (by simp [known, met])

-- Nothing is lost when repetitions are left out before the items are taken in.
theorem enlistAll_eraseDups (seen items : List α) :
    enlistAll seen items.eraseDups = enlistAll seen items := by
  have once : items.eraseDups.eraseDups = items.eraseDups := by
    rw [← enlistAll_eq_eraseDups items.eraseDups]
    exact enlistAll_of_nodup (nodup_eraseDups items)
  rw [enlistAll_eq_append, once, ← enlistAll_eq_append]

theorem eraseDups_flatMap_eraseDups {β : Type} (f : β → List α) (parts : List β) :
    (parts.flatMap fun part => (f part).eraseDups).eraseDups = (parts.flatMap f).eraseDups := by
  have taken (seen : List α) : enlistAll seen (parts.flatMap fun part => (f part).eraseDups) =
      enlistAll seen (parts.flatMap f) := by
    induction parts generalizing seen with
    | nil => rfl
    | cons part rest ih =>
      rw [List.flatMap_cons, List.flatMap_cons, enlistAll_append, enlistAll_append,
        enlistAll_eraseDups, ih]
  rw [← enlistAll_eq_eraseDups, taken, enlistAll_eq_eraseDups]

end TruthTables

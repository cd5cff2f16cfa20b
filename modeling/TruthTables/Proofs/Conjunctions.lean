import TruthTables.Proofs.CanonicalText
import TruthTables.Proofs.Chains

namespace TruthTables

def Expr.conjunction (names : List String) : Expr := chained .and (names.map atom)

@[simp] theorem names_conjunction (names : List String) :
    (Expr.conjunction names).names = names := by
  rw [Expr.conjunction, Expr.names_chained, List.flatMap_map]
  exact List.flatMap_singleton' names

theorem wellFormed_conjunction {names : List String} (some : names ≠ [])
    (named : ∀ name ∈ names, Word.IsName name) : (Expr.conjunction names).WellFormed := by
  apply Expr.wellFormed_chained
  · simpa using some
  · intro e member
    obtain ⟨name, within, rfl⟩ := List.mem_map.mp member
    exact .atom (named name within)

theorem truth_conjunction (bits : String → Bool) {names : List String} (some : names ≠ []) :
    (Expr.conjunction names).truth bits = names.all bits := by
  rw [Expr.conjunction, Expr.truth_chained_and bits (by simpa using some), List.all_map]
  rfl

theorem parse_conjunction {names : List String} (some : names ≠ [])
    (named : ∀ name ∈ names, Word.IsName name) (distinct : names.Nodup) :
    parse (Expr.conjunction names).text = .ok ⟨Expr.conjunction names, names⟩ := by
  have once : names.eraseDups = names := by
    rw [← enlistAll_eq_eraseDups]
    exact enlistAll_of_nodup (by simpa using distinct)
  rw [Expr.parse_text (wellFormed_conjunction some named) (by rwa [names_conjunction]),
    names_conjunction, once]

def wideNames : List String := (List.range' 1 63).map fun number => "x" ++ toString number

theorem isName_wideNames : ∀ name ∈ wideNames, Word.IsName name := by
  intro name member
  rw [Word.isName_iff]
  revert name
  decide +kernel

theorem nodup_wideNames : wideNames.Nodup := by decide +kernel

-- One name fewer, and the assignments could be counted.
def wide : Expr := .conjunction wideNames

theorem parse_wide : parse wide.text = .ok ⟨wide, wideNames⟩ :=
  parse_conjunction (by decide) isName_wideNames nodup_wideNames

end TruthTables

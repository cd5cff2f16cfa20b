import TruthTables.Proofs.Stages

namespace TruthTables

instance : DecidablePred Word.IsName := fun _ => decidable_of_iff' _ Word.isName_iff

theorem Word.not_isName_of_bracket {word : String} (bracketed : word.toList.head? = some '(') :
    ¬IsName word := by
  intro named
  obtain ⟨c, rest, split, alpha⟩ := named.letter_first
  rw [split] at bracketed
  cases bracketed
  exact absurd alpha (by decide)

namespace Expr

variable {e : Expr}

-- The texts of applications begin with a bracket, so the names among the texts are the variables.
theorem WellFormed.filter_subexpressions (formed : e.WellFormed) :
    e.subexpressions.filter (fun p => decide (Word.IsName p.text)) = e.names.map Expr.atom := by
  induction formed with
  | @atom name named => exact List.filter_cons_of_pos (decide_eq_true named)
  | zero | one => rfl
  | @not operand _ ih =>
    have other : ¬Word.IsName (Expr.not operand).text :=
      Word.not_isName_of_bracket (by simp [text])
    simp [subexpressions, names, ih, other]
  | @binary c left right _ _ first second =>
    have other : ¬Word.IsName (Expr.binary c left right).text :=
      Word.not_isName_of_bracket (by simp [text])
    simp [subexpressions, names, first, second, other]

theorem WellFormed.filter_entered (formed : e.WellFormed) (namesOnly : Bool) :
    (e.entered namesOnly).filter (fun p => decide (Word.IsName p.text)) =
      e.names.map Expr.atom := by
  cases namesOnly with
  | false => exact formed.filter_subexpressions
  | true =>
    refine List.filter_eq_self.mpr fun p member => ?_
    obtain ⟨name, within, rfl⟩ := List.mem_map.mp member
    exact decide_eq_true (formed.isName within)

theorem map_text_shown_names (e : Expr) : (e.shown true true).map text = e.names.eraseDups := by
  have leaves : e.shown true true = e.names.eraseDups.map atom :=
    eraseDups_map (fun _ _ same => atom.inj same) e.names
  rw [leaves, map_text_atom]

theorem WellFormed.names_of_shown (formed : e.WellFormed) (namesOnly : Bool) :
    ((e.shown namesOnly true).map Expr.text).filter (fun key => Word.IsName key) =
      e.names.eraseDups := by
  have leaves : (e.shown namesOnly true).filter (fun p => decide (Word.IsName p.text)) =
      e.shown true true := by
    simp only [shown, ↓reduceIte, ← eraseDups_filter, formed.filter_entered]
    rfl
  rw [List.filter_map, ← map_text_shown_names, ← leaves]
  rfl

end Expr

-- The columns of a table with the chosen keys, which are apart from each other and from the two
-- that every table has.
structure Table.HasColumns (t : Table) (chosen : List String) : Prop where
  keys : t.columns.keys = chosen ++ [Word.resultTitle, Word.weightTitle]
  distinct : t.columns.keys.Nodup
  result : Word.resultTitle ∉ chosen
  weight : Word.weightTitle ∉ chosen

theorem Layout.hasColumns {root : Expr} {names : List String} {shown : List Expr}
    (layout : Layout root names shown) :
    (tableFor root names shown).HasColumns (shown.map Expr.text) := by
  have apart : (shown.map Expr.text ++ [Word.resultTitle, Word.weightTitle]).Nodup :=
    layout.keys_columns ▸ layout.nodup_columns
  have free := (List.nodup_append'.mp apart).2.2
  exact {
    keys := layout.keys_columns
    distinct := layout.nodup_columns
    result := fun member => free member (List.mem_cons_self ..)
    weight := fun member => free member (List.mem_cons_of_mem _ (List.mem_cons_self ..)) }

theorem keys_are_the_names {text : String} {parsed : Parsed}
    (accepted : parse text = .ok parsed) :
    (∀ bindings : List (String × Value),
      (∀ entry ∈ Entries.ofPairs bindings, entry.2.bit?.isSome) →
      ∃ assignment plain whole, Assignment.ofBindings bindings = .ok assignment ∧
        parsed.root.evaluate assignment true = .ok plain ∧
        parsed.root.evaluate assignment false = .ok whole ∧
        plain.entries.keys = parsed.names ∧
        whole.entries.keys.filter (fun key => Word.IsName key) = parsed.names) ∧
    ∀ namesOnly : Bool, ∃ keys : List String,
      keys.filter (fun key => Word.IsName key) = parsed.names ∧
      (namesOnly = true → keys = parsed.names) ∧
      ∀ bindings : List (String × Value),
        (∀ entry ∈ Entries.ofPairs bindings, entry.2.bit?.isSome) →
        ∃ a, Analysis.start text bindings namesOnly = .ok a ∧ a.names = parsed.names ∧
          a.values.keys = keys ∧
          ∀ (asked : List Query) (full : Bool),
            (parsed.names.length < 63 → ∃ t chosen,
              ((a.after asked).tabulate full).1 = .ok t ∧ t.HasColumns chosen ∧
              (full = true → chosen = keys) ∧
              (full = false → chosen.Pairwise (· < ·) ∧ chosen.Perm parsed.names)) ∧
            (63 ≤ parsed.names.length →
              ((a.after asked).tabulate full).1 = .error (.count .beyondLength)) := by
  have formed := parse_wellFormed accepted
  obtain ⟨named, names⟩ := parsed_eq accepted
  constructor
  · intro bindings valid
    obtain ⟨assignment, made, _⟩ := Assignment.ofEntries_get? valid
    refine ⟨assignment, _, _, made, evaluate_eq assignment formed true,
      evaluate_eq assignment formed false, ?_, ?_⟩
    · rw [names, Analysis.keys_values]
      exact Expr.map_text_shown_names parsed.root
    · rw [names, Analysis.keys_values]
      exact formed.names_of_shown false
  · intro namesOnly
    refine ⟨(parsed.root.shown namesOnly true).map Expr.text, ?_, ?_, fun bindings valid => ?_⟩
    · rw [names]
      exact formed.names_of_shown namesOnly
    · rintro rfl
      rw [names]
      exact Expr.map_text_shown_names parsed.root
    · obtain ⟨bound, started⟩ := Analysis.exists_start accepted valid namesOnly
      refine ⟨_, started, names.symm, Analysis.keys_values parsed.root bound namesOnly, ?_⟩
      intro asked full
      refine ⟨fun few => ?_, fun many =>
        Analysis.tabulate_after_of_many accepted many bound namesOnly full asked⟩
      have tabular := tabular_of_parse accepted few
      refine ⟨_, _, Analysis.tabulate_after tabular none asked full,
        (formed.layout_shown named namesOnly full).hasColumns, ?_, ?_⟩
      · rintro rfl
        rfl
      · rintro rfl
        have sorted : (parsed.root.shown namesOnly false).map Expr.text = parsed.root.sorted :=
          Expr.map_text_atom _
        rw [sorted, names]
        exact ⟨parsed.root.pairwise_sorted, parsed.root.perm_sorted⟩

-- A variable that is negated and comes back, one that is bound at the start beside a name that the
-- formula does not have, and a full table after one without the sub-expressions.
theorem keys_are_the_names_equivalence :
    let parsed : Parsed :=
      ⟨.binary .equiv (.binary .and (.not (.atom "q")) (.atom "p")) (.atom "q"), ["q", "p"]⟩
    let bindings : List (String × Value) := [("p", .bool true), ("r", .int 0)]
    (parse "((¬q•p)~q)" = .ok parsed ∧
      ∀ entry ∈ Entries.ofPairs bindings, entry.2.bit?.isSome) ∧
    (∃ assignment plain whole, Assignment.ofBindings bindings = .ok assignment ∧
      parsed.root.evaluate assignment true = .ok plain ∧
      parsed.root.evaluate assignment false = .ok whole ∧
      plain.entries.keys = parsed.names ∧
      whole.entries.keys.filter (fun key => Word.IsName key) = parsed.names) ∧
    ∃ a t, Analysis.start "((¬q•p)~q)" bindings false = .ok a ∧ a.names = parsed.names ∧
      ((a.after [.tabulate false]).tabulate true).1 = .ok t ∧ t.HasColumns a.values.keys := by
  intro parsed bindings
  have accepted : parse "((¬q•p)~q)" = .ok parsed := by cbv
  have valid : ∀ entry ∈ Entries.ofPairs bindings, entry.2.bit?.isSome := by
    simp [bindings, Entries.ofPairs, Entries.set, Value.bit?]
  obtain ⟨evaluated, tabulated⟩ := keys_are_the_names accepted
  obtain ⟨keys, _, _, started⟩ := tabulated false
  obtain ⟨a, start, names, entered, made⟩ := started bindings valid
  obtain ⟨t, chosen, table, columns, full, _⟩ := (made [.tabulate false] true).1 (by decide)
  rw [full rfl, ← entered] at columns
  exact ⟨⟨accepted, valid⟩, evaluated bindings valid, a, t, start, names, table, columns⟩

theorem conjunction_of_many_is_not_tabulated :
    parse wide.text = .ok ⟨wide, wideNames⟩ ∧
      ∃ a, Analysis.start wide.text [] false = .ok a ∧ a.names = wideNames ∧
        ∀ full, (a.tabulate full).1 = .error (.count .beyondLength) := by
  obtain ⟨a, started, unread⟩ := Analysis.exists_start_wide
  refine ⟨parse_wide, a, started, unread.names, fun full => ?_⟩
  rw [Analysis.tabulate_of_many unread.many]

end TruthTables

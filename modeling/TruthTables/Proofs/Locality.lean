import TruthTables.Proofs.Acceptance

namespace TruthTables

def Token.begins : Token → Bool
  | not | opening | word _ => true
  | connective _ | closing => false

structure Reading.Takes {tokens : List Token} (read : Reading tokens) (names : List String)
    (e : Expr) (added : List String) (rest : List Token) : Prop where
  expr : read.expr = e
  names : read.names = names ++ added.filter fun name => name ∉ names
  rest : read.rest = rest

namespace Parser

variable {names : List String} {tokens : List Token}

theorem map_some_ne_none (r : Except FormulaError Piece) : r.map some ≠ .ok none := by
  intro found
  cases r <;> cases found

theorem front_opening_ne_none (rest : List Token) : front names (.opening :: rest) ≠ .ok none := by
  intro found
  by_cases head : rest.head? = some .not
  · obtain ⟨more, rfl⟩ := eq_not_cons_of_head? head
    rw [front_opening_not] at found
    rcases inner : front names more with error | _ | p
    · simp [inner] at found
    · simp [inner] at found
    · simp only [inner] at found
      split at found
      · cases found
      · cases found
      · exact map_some_ne_none _ found
  · rw [front_opening head] at found
    rcases inner : front names rest with error | _ | p
    · simp [inner] at found
    · simp [inner] at found
    · simp only [inner] at found
      exact map_some_ne_none _ found

theorem front_eq_none_iff :
    front names tokens = .ok none ↔ ∀ t ∈ tokens.head?, t.begins = false := by
  cases tokens with
  | nil => simp
  | cons t rest =>
    cases t with
    | connective c => simp [Token.begins]
    | closing => simp [Token.begins]
    | opening => simp [front_opening_ne_none, Token.begins]
    | word text =>
      cases known : Word.read text <;> simp [Token.begins, known]
    | not =>
      rcases inner : front names rest with error | _ | p <;> simp [Token.begins, inner]

theorem formula_eq_none_iff :
    formula names tokens = .ok none ↔ ∀ t ∈ tokens.head?, t.begins = false := by
  rw [← front_eq_none_iff, front]
  rcases formula names tokens with error | _ | read <;> simp [Except.map]

theorem front_of_formula {read : Reading tokens} (found : formula names tokens = .ok (some read)) :
    front names tokens = .ok (some (pieceOf read)) := by
  rw [front, found]
  rfl

theorem exists_reading {p : Piece} (found : front names tokens = .ok (some p)) :
    ∃ read, formula names tokens = .ok (some read) ∧ pieceOf read = p := by
  rw [front] at found
  rcases outcome : formula names tokens with error | _ | read
  · simp [outcome, Except.map] at found
  · simp [outcome, Except.map] at found
  · simp only [outcome, Except.map, Option.map, Except.ok.injEq, Option.some.injEq] at found
    exact ⟨read, rfl, found⟩

theorem exists_reading_of_derivation {d : Derivation} (sound : d.IsSound) (names : List String)
    {rest : List Token} (split : tokens = d.tokens ++ rest) :
    ∃ read, formula names tokens = .ok (some read) ∧
      read.Takes names d.expr d.expr.names.eraseDups rest := by
  subst split
  obtain ⟨read, found, same⟩ := exists_reading (front_of_derivation sound names rest)
  refine ⟨read, found, congrArg Piece.expr same, ?_, congrArg Piece.rest same⟩
  rw [← enlistAll_eq_append]
  exact congrArg Piece.names same

theorem formula_fails_iff : (∃ error, formula names tokens = .error error) ↔
    (∃ t ∈ tokens.head?, t.begins) ∧ ¬∃ d : Derivation, d.IsSound ∧ d.tokens <+: tokens := by
  constructor
  · rintro ⟨error, failed⟩
    constructor
    · by_contra nowhere
      have none : formula names tokens = .ok none := formula_eq_none_iff.mpr fun t member => by
        by_contra begun
        exact nowhere ⟨t, member, by simpa using begun⟩
      rw [none] at failed
      cases failed
    · rintro ⟨d, sound, rest, split⟩
      obtain ⟨read, found, _⟩ := exists_reading_of_derivation sound names split.symm
      rw [found] at failed
      cases failed
  · rintro ⟨⟨t, member, begun⟩, unread⟩
    rcases outcome : formula names tokens with error | _ | read
    · exact ⟨error, rfl⟩
    · rw [formula_eq_none_iff.mp outcome t member] at begun
      cases begun
    · obtain ⟨d, sound, split, _⟩ := front_eq_some_iff.mp (front_of_formula outcome)
      exact absurd ⟨d, sound, read.rest, split.symm⟩ unread

end Parser

section Places

variable {tokens : List Token} {first last : Nat}

theorem extract_append_drop (order : first ≤ last) :
    tokens.extract first last ++ tokens.drop last = tokens.drop first := by
  have later : tokens.drop last = (tokens.drop first).drop (last - first) := by
    rw [List.drop_drop, Nat.add_sub_cancel' order]
  rw [later, List.take_append_drop]

theorem extract_of_drop {d : Derivation} (sound : d.IsSound) {rest : List Token}
    (split : tokens.drop first = d.tokens ++ rest) :
    first + d.tokens.length ≤ tokens.length ∧
      tokens.extract first (first + d.tokens.length) = d.tokens ∧
      rest = tokens.drop (first + d.tokens.length) := by
  have some := List.length_pos_iff.mpr (Derivation.derives sound).ne_nil
  have length := congrArg List.length split
  rw [List.length_drop, List.length_append] at length
  refine ⟨by omega, ?_, ?_⟩
  · rw [List.extract, Nat.add_sub_cancel_left, split, List.take_left]
  · rw [← List.drop_drop, split, List.drop_left]

theorem exists_prefix_iff : (∃ d : Derivation, d.IsSound ∧ d.tokens <+: tokens.drop first) ↔
    ∃ last e, Derives (tokens.extract first last) e := by
  constructor
  · rintro ⟨d, sound, rest, split⟩
    refine ⟨first + d.tokens.length, d.expr, ?_⟩
    rw [(extract_of_drop sound split.symm).2.1]
    exact Derivation.derives sound
  · rintro ⟨last, e, derived⟩
    obtain ⟨d, sound, same, _⟩ := derives_iff.mp derived
    exact ⟨d, sound, same ▸ List.take_prefix _ _⟩

theorem eq_of_derives_extract {d : Derivation} {rest : List Token}
    (split : tokens.drop first = d.tokens ++ rest) (within : last ≤ tokens.length) {e : Expr}
    (derived : Derives (tokens.extract first last) e) :
    last = first + d.tokens.length ∧ e = d.expr := by
  obtain ⟨other, _, same, rfl⟩ := derives_iff.mp derived
  have some := List.length_pos_iff.mpr derived.ne_nil
  have length : (tokens.extract first last).length = last - first := by
    simp only [List.length_take, List.length_drop]
    omega
  have whole : tokens.extract first last ++ tokens.drop last = tokens.drop first :=
    extract_append_drop (by omega)
  rw [← same, split] at whole
  obtain ⟨rfl, _⟩ := Derivation.prefix_free whole
  rw [← same] at length some
  exact ⟨by omega, rfl⟩

end Places

-- The reading takes the tokens up to the last place, which are one formula, and would take the same
-- tokens anywhere else.
structure Reading.Consumes {tokens : List Token} {first : Nat} (read : Reading (tokens.drop first))
    (names : List String) (last : Nat) (e : Expr) (added : List String) : Prop where
  moves : first < last
  within : last ≤ tokens.length
  derived : Derives (tokens.extract first last) e
  only : ∀ other e', other ≤ tokens.length → Derives (tokens.extract first other) e' →
    other = last ∧ e' = e
  takes : read.Takes names e added (tokens.drop last)
  elsewhere : ∀ (known : List String) (others : List Token) (start : Nat),
    others.extract start (start + (last - first)) = tokens.extract first last →
    ∃ again, Parser.formula known (others.drop start) = .ok (some again) ∧
      again.Takes known e added (others.drop (start + (last - first)))

theorem Parser.Piece.Spells.consumes {names : List String} {tokens : List Token} {first : Nat}
    {read : Reading (tokens.drop first)} {d : Derivation}
    (piece : (Parser.pieceOf read).Spells names (tokens.drop first) d) :
    read.Consumes names (first + d.tokens.length) d.expr d.expr.names.eraseDups := by
  obtain ⟨within, part, left⟩ := extract_of_drop piece.sound piece.split
  have derived := Derivation.derives piece.sound
  have some := List.length_pos_iff.mpr derived.ne_nil
  have width : first + d.tokens.length - first = d.tokens.length := Nat.add_sub_cancel_left ..
  refine ⟨by omega, within, part.symm ▸ derived, ?_, ⟨piece.same, ?_, left⟩, ?_⟩
  · intro other e' inside again
    exact eq_of_derives_extract piece.split inside again
  · rw [← enlistAll_eq_append]
    exact piece.noted
  · intro known others start same
    have whole : others.extract start (start + d.tokens.length) ++
        others.drop (start + d.tokens.length) = others.drop start :=
      extract_append_drop (Nat.le_add_right _ _)
    rw [width, part] at same
    rw [same] at whole
    rw [width]
    exact Parser.exists_reading_of_derivation piece.sound known whole.symm

theorem reading_is_local (names : List String) (tokens : List Token) (first : Nat) :
    (Parser.formula names (tokens.drop first) = .ok none ↔
      ∀ t ∈ tokens[first]?, t.begins = false) ∧
    ((∃ error, Parser.formula names (tokens.drop first) = .error error) ↔
      (∃ t ∈ tokens[first]?, t.begins) ∧ ¬∃ last e, Derives (tokens.extract first last) e) ∧
    ∀ read, Parser.formula names (tokens.drop first) = .ok (some read) →
      ∃ last e added, read.Consumes names last e added := by
  refine ⟨?_, ?_, ?_⟩
  · rw [Parser.formula_eq_none_iff, List.head?_drop]
  · rw [Parser.formula_fails_iff, List.head?_drop, exists_prefix_iff]
  · intro read found
    obtain ⟨d, piece⟩ := Parser.front_eq_some_iff.mp (Parser.front_of_formula found)
    exact ⟨_, _, _, piece.consumes⟩

-- The second operand of an application, read from its place in the middle after both of its names
-- were met.
theorem reading_is_local_operand :
    let tokens : List Token := [.opening, .word "x", .connective .implies, .opening, .not,
      .word "y", .connective .or, .word "x", .closing, .closing]
    ∃ read, Parser.formula ["x", "y"] (tokens.drop 3) = .ok (some read) ∧
      ∃ last e added, read.Consumes ["x", "y"] last e added := by
  intro tokens
  have sound : (Derivation.applied .or (.bare (.leaf "y")) (.leaf "x")).IsSound :=
    ⟨Word.isLeaf_of_read (e := .atom "y") rfl, Word.isLeaf_of_read (e := .atom "x") rfl⟩
  have split : tokens.drop 3 =
      (Derivation.applied .or (.bare (.leaf "y")) (.leaf "x")).tokens ++ [.closing] := rfl
  obtain ⟨read, found, _⟩ := Parser.exists_reading_of_derivation sound ["x", "y"] split
  exact ⟨read, found, (reading_is_local ["x", "y"] tokens 3).2.2 read found⟩

end TruthTables

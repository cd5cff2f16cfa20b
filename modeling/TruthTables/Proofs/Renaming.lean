import Mathlib
import TruthTables.Proofs.Canonicity
import TruthTables.Proofs.Classification

namespace TruthTables

def Word.rename (r : String → String) (word : String) : String :=
  if word = "0" ∨ word = "1" then word else r word

def Token.rename (r : String → String) : Token → Token
  | word text => word (Word.rename r text)
  | not => not
  | connective c => connective c
  | opening => opening
  | closing => closing

def Derivation.rename (r : String → String) : Derivation → Derivation
  | leaf word => leaf (Word.rename r word)
  | bare operand => bare (operand.rename r)
  | bracketed operand => bracketed (operand.rename r)
  | applied c left right => applied c (left.rename r) (right.rename r)

def Expr.rename (r : String → String) : Expr → Expr
  | atom name => atom (r name)
  | const value => const value
  | not operand => not (operand.rename r)
  | binary c left right => binary c (left.rename r) (right.rename r)
  | pair left right => pair (left.rename r) (right.rename r)
  | hole => hole

def renamedText (r : String → String) (text : String) : String :=
  match Lexer.tokenize text with
  | .error _ => ""
  | .ok lexemes => String.join (lexemes.map fun lexeme => (lexeme.token.rename r).text)

def rowOf (names : List String) (bits : String → Bool) : Nat := binaryNumber (names.map bits)

-- The row in which each of the names, under its new name, has its bit.
def Table.IsRow (t : Table) (r : String → String) (names : List String) (bits : String → Bool)
    (row : Nat) : Prop :=
  row < t.total ∧ ∀ name ∈ names, t.cell (r name) row = .ok (bitCell (bits name))

-- What counts rows and does not say which.
def Feature.isCount : Feature → Bool
  | .positive | .negative | .total | .isTautology | .isContradiction | .isSatisfiable => true
  | .columns | .chain _ | .display _ | .displayRows _ | .index => false

def Feature.isNumbering : Feature → Bool
  | .displayRows _ | .index => true
  | .columns | .chain _ | .display _ | .positive | .negative | .total | .isTautology
  | .isContradiction | .isSatisfiable => false

section Rows

variable {names : List String} {bits : String → Bool} {row : Nat} {name : String}

theorem rowOf_lt (names : List String) (bits : String → Bool) :
    rowOf names bits < 2 ^ names.length := by
  simpa [rowOf] using binaryNumber_lt (names.map bits)

theorem digits_rowOf (names : List String) (bits : String → Bool) :
    digits names.length (rowOf names bits) = names.map bits := by
  simpa [rowOf] using digits_binaryNumber (names.map bits)

theorem rowBits_rowOf (distinct : names.Nodup) (member : name ∈ names) :
    rowBits names (rowOf names bits) name = bits name := by
  have same : names.map (rowBits names (rowOf names bits)) = names.map bits := by
    rw [← digits_names distinct, digits_rowOf]
  exact List.map_inj_left.mp same name member

theorem rowOf_eq (distinct : names.Nodup) (small : row < 2 ^ names.length)
    (given : ∀ name ∈ names, rowBits names row name = bits name) : rowOf names bits = row :=
  eq_of_rowBits_eq distinct (rowOf_lt names bits) small fun name member => by
    rw [rowBits_rowOf distinct member, given name member]

end Rows

theorem Word.rename_of_isName {r : String → String} {word : String} (named : IsName word) :
    rename r word = r word := by
  simp [rename, named.ne_zero, named.ne_one]

namespace Expr

variable {r : String → String} {e : Expr}

@[simp] theorem names_rename (r : String → String) (e : Expr) :
    (e.rename r).names = e.names.map r := by
  induction e with
  | atom name => rfl
  | const value => rfl
  | not operand ih => exact ih
  | binary c left right first second => simp [rename, names, first, second]
  | pair left right first second => simp [rename, names, first, second]
  | hole => rfl

@[simp] theorem truth_rename (r : String → String) (bits : String → Bool) (e : Expr) :
    (e.rename r).truth bits = e.truth fun name => bits (r name) := by
  induction e with
  | atom name => rfl
  | const value => rfl
  | not operand ih => simp [rename, truth, ih]
  | binary c left right first second => simp [rename, truth, first, second]
  | pair left right => rfl
  | hole => rfl

theorem WellFormed.rename (formed : e.WellFormed)
    (named : ∀ name ∈ e.names, Word.IsName (r name)) : (e.rename r).WellFormed := by
  induction formed with
  | @atom name _ => exact .atom (named name (List.mem_singleton_self name))
  | zero => exact .zero
  | one => exact .one
  | not _ ih => exact .not (ih named)
  | binary _ _ first second =>
    have front := first fun name member => named name (List.mem_append_left _ member)
    have back := second fun name member => named name (List.mem_append_right _ member)
    exact .binary front back

@[simp] theorem rename_foldl (r : String → String) (c : Connective) (first : Expr)
    (rest : List Expr) :
    (rest.foldl (binary c) first).rename r =
      (rest.map (Expr.rename r)).foldl (binary c) (first.rename r) := by
  induction rest generalizing first with
  | nil => rfl
  | cons next rest ih => exact ih (binary c first next)

@[simp] theorem rename_chained (r : String → String) (c : Connective) (members : List Expr) :
    (chained c members).rename r = chained c (members.map (Expr.rename r)) := by
  cases members with
  | nil => rfl
  | cons first rest => exact rename_foldl r c first rest

end Expr

namespace Derivation

variable {r : String → String}

theorem tokens_rename (r : String → String) (d : Derivation) :
    (d.rename r).tokens = d.tokens.map (Token.rename r) := by
  induction d with
  | leaf word => rfl
  | bare operand ih => simp [rename, tokens, Token.rename, ih]
  | bracketed operand ih => simp [rename, tokens, Token.rename, ih]
  | applied c left right first second => simp [rename, tokens, Token.rename, first, second]

theorem expr_leaf_rename {word : String} (sound : Word.IsLeaf word)
    (named : ∀ name ∈ (Word.leaf word).names, Word.IsName (r name)) :
    Word.IsLeaf (Word.rename r word) ∧
      Word.leaf (Word.rename r word) = (Word.leaf word).rename r := by
  rcases sound with name | rfl | rfl
  · have leaf := Word.leaf_of_isName name
    rw [leaf] at named
    have renamed : Word.IsName (r word) := named word (List.mem_singleton_self word)
    rw [Word.rename_of_isName name, Word.leaf_of_isName renamed, leaf]
    exact ⟨.inl renamed, rfl⟩
  · exact ⟨.inr (.inl rfl), rfl⟩
  · exact ⟨.inr (.inr rfl), rfl⟩

theorem rename_spec {d : Derivation} (sound : d.IsSound)
    (named : ∀ name ∈ d.expr.names, Word.IsName (r name)) :
    (d.rename r).IsSound ∧ (d.rename r).expr = d.expr.rename r := by
  induction d with
  | leaf word => exact expr_leaf_rename sound named
  | bare operand ih =>
    obtain ⟨inner, same⟩ := ih sound named
    exact ⟨inner, congrArg Expr.not same⟩
  | bracketed operand ih =>
    obtain ⟨inner, same⟩ := ih sound named
    exact ⟨inner, congrArg Expr.not same⟩
  | applied c left right first second =>
    obtain ⟨front, sameFront⟩ := first sound.1 fun name member =>
      named name (List.mem_append_left _ member)
    obtain ⟨back, sameBack⟩ := second sound.2 fun name member =>
      named name (List.mem_append_right _ member)
    exact ⟨⟨front, back⟩, congrArg₂ (Expr.binary c) sameFront sameBack⟩

def IsBracketed : Derivation → Prop
  | leaf _ => True
  | bare _ => False
  | bracketed operand => operand.IsBracketed
  | applied _ left right => left.IsBracketed ∧ right.IsBracketed

theorem IsBracketed.rename {d : Derivation} (plain : d.IsBracketed) :
    (d.rename r).IsBracketed := by
  induction d with
  | leaf word => trivial
  | bare operand => exact plain.elim
  | bracketed operand ih => exact ih plain
  | applied c left right first second => exact ⟨first plain.1, second plain.2⟩

theorem text_leaf {word : String} (sound : Word.IsLeaf word) : (Word.leaf word).text = word := by
  rcases sound with name | rfl | rfl
  · rw [Word.leaf_of_isName name, Expr.text]
  · rfl
  · rfl

theorem text_expr {d : Derivation} (sound : d.IsSound) (plain : d.IsBracketed) :
    d.expr.text.toList = d.tokens.flatMap (·.text.toList) := by
  induction d with
  | leaf word => simp [expr, tokens, Token.text, text_leaf sound]
  | bare operand => exact plain.elim
  | bracketed operand ih =>
    simp [expr, tokens, Token.text, Expr.text, ih sound plain]
  | applied c left right first second =>
    simp [expr, tokens, Token.text, Expr.text, first sound.1 plain.1, second sound.2 plain.2]

theorem exists_bracketed {e : Expr} (formed : e.WellFormed) :
    ∃ d : Derivation, d.IsSound ∧ d.IsBracketed ∧ d.expr = e := by
  induction formed with
  | @atom name named => exact ⟨.leaf name, .inl named, trivial, Word.leaf_of_isName named⟩
  | zero => exact ⟨.leaf "0", .inr (.inl rfl), trivial, rfl⟩
  | one => exact ⟨.leaf "1", .inr (.inr rfl), trivial, rfl⟩
  | not _ ih =>
    obtain ⟨d, sound, plain, rfl⟩ := ih
    exact ⟨.bracketed d, sound, plain, rfl⟩
  | @binary c _ _ _ _ first second =>
    obtain ⟨left, soundLeft, plainLeft, rfl⟩ := first
    obtain ⟨right, soundRight, plainRight, rfl⟩ := second
    exact ⟨.applied c left right, ⟨soundLeft, soundRight⟩, ⟨plainLeft, plainRight⟩, rfl⟩

end Derivation

section Texts

variable {r : String → String} {text other : String} {parsed : Parsed} {e : Expr}

theorem toList_renamedText {d : Derivation} (cut : Cut (Text.solid text.toList) d.tokens) :
    (renamedText r text).toList = (d.rename r).tokens.flatMap (·.text.toList) := by
  obtain ⟨lexemes, found, same⟩ := Lexer.tokenize_iff_cut.mpr cut
  have tokens : lexemes.map (fun lexeme => (lexeme.token.rename r).text) =
      (d.rename r).tokens.map Token.text := by
    rw [Derivation.tokens_rename, ← same, List.map_map, List.map_map]
    rfl
  simp only [renamedText, found, tokens, String.toList_join, List.flatMap_map]

theorem parse_renamedText (accepted : parse text = .ok parsed)
    (named : ∀ name ∈ parsed.names, Word.IsName (r name))
    (spelled : Text.solid other.toList = (renamedText r text).toList) :
    parse other = .ok ⟨parsed.root.rename r, (parsed.root.rename r).names.eraseDups⟩ := by
  obtain ⟨d, sound, cut, some, rfl⟩ := parse_eq_ok_iff.mp accepted
  have leaves : ∀ name ∈ d.expr.names, Word.IsName (r name) := fun name member =>
    named name (List.mem_eraseDups.mpr member)
  obtain ⟨renamed, same⟩ := Derivation.rename_spec sound leaves
  refine parse_eq_ok_iff.mpr ⟨d.rename r, renamed, ?_, ?_, by rw [same]⟩
  · rw [spelled, toList_renamedText cut]
    exact Derivation.cut renamed
  · rw [same, Expr.names_rename]
    simpa using some

theorem renamedText_text (formed : e.WellFormed) (named : ∀ name ∈ e.names, Word.IsName (r name)) :
    renamedText r e.text = (e.rename r).text := by
  obtain ⟨d, sound, plain, rfl⟩ := Derivation.exists_bracketed formed
  obtain ⟨renamed, same⟩ := Derivation.rename_spec sound named
  have cut : Cut (Text.solid d.expr.text.toList) d.tokens := by
    have whole := Derivation.cut sound
    rw [← Derivation.text_expr sound plain] at whole
    rwa [whole.solid]
  apply String.toList_inj.mp
  rw [toList_renamedText cut, ← same, Derivation.text_expr renamed plain.rename]

@[simp] theorem renamedText_empty (r : String → String) : renamedText r "" = "" := by
  have none : Lexer.tokenize "" = .ok [] := by cbv
  rw [renamedText, none]
  rfl

end Texts

namespace Expr

variable {r : String → String} {e : Expr} {names : List String} {bits : String → Bool} {row : Nat}

-- The row of the formula that a row of the renamed one stands for.
def originalRow (r : String → String) (e : Expr) (row : Nat) : Nat :=
  rowOf e.sorted fun name => rowBits (e.rename r).sorted row (r name)

theorem rowBits_originalRow {name : String} (member : name ∈ e.sorted) (row : Nat) :
    rowBits e.sorted (originalRow r e row) name = rowBits (e.rename r).sorted row (r name) :=
  rowBits_rowOf e.nodup_sorted member

theorem truth_originalRow (row : Nat) :
    (e.rename r).truth (rowBits (e.rename r).sorted row) =
      e.truth (rowBits e.sorted (originalRow r e row)) := by
  rw [truth_rename]
  exact truth_congr fun name member => (rowBits_originalRow (mem_sorted.mpr member) row).symm

section Injective

variable (injective : Set.InjOn r {name | name ∈ e.names})
include injective

theorem nodup_map_sorted : (e.sorted.map r).Nodup :=
  e.nodup_sorted.map_on fun _ member _ other same =>
    injective (mem_sorted.mp member) (mem_sorted.mp other) same

theorem sorted_rename_perm : (e.rename r).sorted.Perm (e.sorted.map r) := by
  rw [List.perm_ext_iff_of_nodup (nodup_sorted _) (nodup_map_sorted injective)]
  intro name
  simp

theorem length_sorted_rename : (e.rename r).sorted.length = e.sorted.length := by
  rw [(sorted_rename_perm injective).length_eq, List.length_map]

theorem Tabular.rename (tabular : e.Tabular)
    (named : ∀ name ∈ e.names, Word.IsName (r name)) : (e.rename r).Tabular where
  formed := tabular.formed.rename named
  named := by simpa using tabular.named
  few := by
    rw [length_sorted_rename injective]
    exact tabular.few

theorem originalRow_injOn {first second : Nat} (small : first < 2 ^ e.sorted.length)
    (other : second < 2 ^ e.sorted.length)
    (same : originalRow r e first = originalRow r e second) : first = second := by
  rw [← length_sorted_rename injective] at small other
  refine eq_of_rowBits_eq (nodup_sorted _) small other fun name member => ?_
  obtain ⟨given, within, rfl⟩ := List.mem_map.mp ((sorted_rename_perm injective).mem_iff.mp member)
  rw [← rowBits_originalRow within, ← rowBits_originalRow within, same]

theorem map_originalRow_perm :
    ((List.range (2 ^ e.sorted.length)).map (originalRow r e)).Perm
      (List.range (2 ^ e.sorted.length)) := by
  have distinct : ((List.range (2 ^ e.sorted.length)).map (originalRow r e)).Nodup :=
    List.nodup_range.map_on fun _ first _ second =>
      originalRow_injOn injective (List.mem_range.mp first) (List.mem_range.mp second)
  have within : (List.range (2 ^ e.sorted.length)).map (originalRow r e) ⊆
      List.range (2 ^ e.sorted.length) := by
    intro row member
    obtain ⟨given, _, rfl⟩ := List.mem_map.mp member
    exact List.mem_range.mpr (rowOf_lt _ _)
  exact (List.subperm_of_subset distinct within).perm_of_length_le (by simp)

theorem results_rename_perm : (e.rename r).results.Perm e.results := by
  have moved : (e.rename r).results =
      ((List.range (2 ^ e.sorted.length)).map (originalRow r e)).map
        fun row => e.truth (rowBits e.sorted row) := by
    rw [results, column, length_sorted_rename injective, List.map_map]
    exact List.map_congr_left fun row _ => truth_originalRow row
  rw [moved]
  exact (map_originalRow_perm injective).map _

theorem answer_rename_of_isCount {f : Feature} (count : f.isCount) :
    (e.rename r).answer f = e.answer f := by
  have results := results_rename_perm injective
  have length := length_sorted_rename injective
  cases f with
  | columns | chain | display | displayRows | index => cases count
  | total => rw [answer, answer, length]
  | positive | negative | isTautology | isContradiction | isSatisfiable =>
    simp only [answer, results.count_eq]

end Injective

theorem rowBits_map {r : String → String} (distinct : (names.map r).Nodup) {name : String}
    (member : name ∈ names) : rowBits (names.map r) row (r name) = rowBits names row name := by
  obtain ⟨place, within, rfl⟩ := List.mem_iff_getElem.mp member
  have moved := rowBits_getElem distinct row ((List.length_map r).symm ▸ within)
  rw [List.getElem_map] at moved
  rw [moved, List.length_map, rowBits_getElem distinct.of_map row within]

theorem literal_rename {r : String → String} {a moved : Assignment} {polarity : Polarity}
    {name : String} (same : moved.bit (r name) = a.bit name) :
    literal polarity moved (r name) = (literal polarity a name).rename r := by
  unfold literal
  rw [same]
  split <;> rfl

theorem term_rename {r : String → String} (distinct : (names.map r).Nodup) (polarity : Polarity)
    (row : Nat) :
    term polarity (names.map r) (rowAssignment (names.map r) row) =
      (term polarity names (rowAssignment names row)).rename r := by
  rw [term, term, rename_chained, List.map_map, List.map_map]
  congr 1
  apply List.map_congr_left
  intro name member
  apply literal_rename
  rw [bit_rowAssignment (List.mem_map_of_mem member), bit_rowAssignment member,
    rowBits_map distinct member]

section Ordered

variable (ordered : ∀ x ∈ e.names, ∀ y ∈ e.names, x < y → r x < r y)
include ordered

theorem injOn_of_ordered : Set.InjOn r {name | name ∈ e.names} := by
  intro x first y second same
  by_contra other
  rcases lt_or_gt_of_ne other with less | more
  · exact absurd same (ne_of_lt (ordered x first y second less))
  · exact absurd same.symm (ne_of_lt (ordered y second x first more))

theorem sorted_rename : (e.rename r).sorted = e.sorted.map r := by
  have moved : (e.sorted.map r).Pairwise (· < ·) := by
    refine List.pairwise_map.mpr (e.pairwise_sorted.imp_of_mem fun first second less => ?_)
    exact ordered _ (mem_sorted.mp first) _ (mem_sorted.mp second) less
  exact (sorted_rename_perm (injOn_of_ordered ordered)).eq_of_pairwise
    (fun _ _ _ _ less more => absurd more (not_lt_of_gt less)) (pairwise_sorted _) moved

theorem results_rename : (e.rename r).results = e.results := by
  have distinct := nodup_map_sorted (injOn_of_ordered ordered)
  rw [results, results, sorted_rename ordered, column, column, List.length_map]
  apply List.map_congr_left
  intro row _
  rw [truth_rename]
  exact truth_congr fun name member => rowBits_map distinct (mem_sorted.mpr member)

theorem answer_rename_of_isNumbering {f : Feature} (numbering : f.isNumbering) :
    (e.rename r).answer f = e.answer f := by
  have results := results_rename ordered
  cases f with
  | columns | chain | display | positive | negative | total | isTautology | isContradiction
  | isSatisfiable => cases numbering
  | displayRows | index => simp only [answer, rows, results]

theorem form_rename (polarity : Polarity) :
    (e.rename r).form polarity = (e.form polarity).rename r := by
  have distinct := nodup_map_sorted (injOn_of_ordered ordered)
  have rows : (e.rename r).rows polarity = e.rows polarity := by
    rw [Expr.rows, Expr.rows, results_rename ordered]
  rw [Expr.form, normalForm, listed_eq, rows, sorted_rename ordered, Expr.form, normalForm,
    listed_eq, rename_chained, List.map_map, List.map_map, List.map_map]
  congr 1
  exact List.map_congr_left fun row _ => term_rename distinct polarity row

theorem WellFormed.text_form_rename (formed : e.WellFormed) (named : e.names ≠ [])
    (renamed : ∀ name ∈ e.names, Word.IsName (r name)) (polarity : Polarity) :
    ((e.rename r).form polarity).text = renamedText r (e.form polarity).text := by
  rw [form_rename ordered]
  by_cases never : ∀ bits, e.truth bits ≠ polarity.result
  · rw [form_of_never never]
    exact (renamedText_empty r).symm
  · have row : ∃ bits, e.truth bits = polarity.result := by simpa using never
    refine (renamedText_text (formed.form named row) fun name member => renamed name ?_).symm
    rw [← mem_sorted, ← names_form row]
    exact List.mem_eraseDups.mpr member

end Ordered

end Expr

theorem bitCell_inj {bit other : Bool} : bitCell bit = bitCell other ↔ bit = other := by
  constructor
  · intro same
    rw [← isTrue_bitCell bit, same, isTrue_bitCell]
  · rintro rfl
    rfl

section Rows

variable {root : Expr} {names given : List String} {shown : List Expr} {row : Nat}
  {r : String → String} {bits moved : String → Bool}

theorem Layout.isRow_iff (layout : Layout root names shown)
    (atoms : ∀ name ∈ names, Expr.atom name ∈ shown)
    (titles : ∀ title, title ∈ names ↔ ∃ name ∈ given, r name = title)
    (same : ∀ name ∈ given, moved (r name) = bits name) :
    (tableFor root names shown).IsRow r given bits row ↔ row = rowOf names moved := by
  have total : (row : Int) < (tableFor root names shown).total ↔ row < 2 ^ names.length :=
    Int.ofNat_lt
  constructor
  · rintro ⟨within, cells⟩
    have small := total.mp within
    refine (rowOf_eq layout.distinct small fun title member => ?_).symm
    obtain ⟨name, present, rfl⟩ := (titles title).mp member
    have cell := cells name present
    rw [layout.cell_eq atoms small member, Except.ok.injEq, bitCell_inj] at cell
    rw [cell, same name present]
  · rintro rfl
    have small := rowOf_lt names moved
    refine ⟨total.mpr small, fun name present => ?_⟩
    have member : r name ∈ names := (titles (r name)).mpr ⟨name, present, rfl⟩
    rw [layout.cell_eq atoms small member, rowBits_rowOf layout.distinct member, same name present]

theorem Layout.cell_rowOf (layout : Layout root names shown) (moved : String → Bool) :
    (tableFor root names shown).cell Word.resultTitle (rowOf names moved) =
      .ok (bitCell (root.truth moved)) := by
  rw [layout.cell_result (rowOf_lt names moved)]
  congr 2
  exact Expr.truth_congr fun name member =>
    rowBits_rowOf layout.distinct (layout.within name member)

end Rows

-- What a renaming leaves as it is in a table, row by row. For any bits there is one row in each of
-- the tables that has them.
def Table.SameRows (t u : Table) (r : String → String) (names : List String) : Prop :=
  ∀ bits, ∃ row other value,
    (∀ i, t.IsRow id names bits i ↔ i = row) ∧ (∀ i, u.IsRow r names bits i ↔ i = other) ∧
    t.cell Word.resultTitle row = .ok value ∧ u.cell Word.resultTitle other = .ok value

theorem Expr.WellFormed.sameRows {e : Expr} (formed : e.WellFormed) (named : e.names ≠ [])
    {r : String → String} (renamed : ∀ name ∈ e.names, Word.IsName (r name))
    (injective : Set.InjOn r {name | name ∈ e.names}) {names : List String}
    (same : ∀ name, name ∈ names ↔ name ∈ e.names) (namesOnly full otherOnly otherFull : Bool) :
    (e.tableOf namesOnly full).SameRows ((e.rename r).tableOf otherOnly otherFull) r names := by
  have otherFormed := formed.rename renamed
  have otherNamed : (e.rename r).names ≠ [] := by
    rw [names_rename]
    simpa using named
  have layout := formed.layout_shown named namesOnly full
  have otherLayout := otherFormed.layout_shown otherNamed otherOnly otherFull
  intro bits
  let moved := fun title => bits (Function.invFunOn r {name | name ∈ e.names} title)
  have back : ∀ name ∈ e.names, moved (r name) = bits name := fun name member =>
    congrArg bits (injective.leftInvOn_invFunOn member)
  have value : (e.rename r).truth moved = e.truth bits := by
    rw [truth_rename]
    exact truth_congr back
  refine ⟨rowOf e.sorted bits, rowOf (e.rename r).sorted moved, bitCell (e.truth bits),
    fun i => ?_, fun i => ?_, layout.cell_rowOf bits, ?_⟩
  · refine layout.isRow_iff (formed.atom_mem_shown namesOnly full) (fun title => ?_) fun _ _ => rfl
    simp [same]
  · refine otherLayout.isRow_iff (otherFormed.atom_mem_shown otherOnly otherFull) (fun title => ?_)
      fun name member => back name ((same name).mp member)
    simp [same]
  · rw [← value]
    exact otherLayout.cell_rowOf moved

-- What stays besides where the order of the names is kept.
structure Table.SameColumns (t u : Table) : Prop where
  result : ∃ cells, t.result = .ok cells ∧ u.result = .ok cells
  weight : ∃ cells, t.weight = .ok cells ∧ u.weight = .ok cells

theorem Expr.WellFormed.sameColumns {e other : Expr} (formed : e.WellFormed) (named : e.names ≠ [])
    (otherFormed : other.WellFormed) (otherNamed : other.names ≠ [])
    (same : other.results = e.results) (namesOnly full otherOnly otherFull : Bool) :
    (e.tableOf namesOnly full).SameColumns (other.tableOf otherOnly otherFull) := by
  have layout := formed.layout_shown named namesOnly full
  have otherLayout := otherFormed.layout_shown otherNamed otherOnly otherFull
  have columns : other.column other.sorted = e.column e.sorted := same
  refine ⟨⟨_, layout.column_result, ?_⟩, ⟨_, layout.column_weight, ?_⟩⟩
  · rw [← columns]
    exact otherLayout.column_result
  · rw [← columns]
    exact otherLayout.column_weight

theorem renaming_changes_only_the_names {text other : String} {parsed : Parsed}
    (accepted : parse text = .ok parsed) (few : parsed.names.length < 63) {r : String → String}
    (injective : Set.InjOn r {name | name ∈ parsed.names})
    (named : ∀ name ∈ parsed.names, Word.IsName (r name))
    (spelled : Text.solid other.toList = (renamedText r text).toList)
    {bindings otherBindings : List (String × Value)}
    (valid : ∀ entry ∈ Entries.ofPairs bindings, entry.2.bit?.isSome)
    (otherValid : ∀ entry ∈ Entries.ofPairs otherBindings, entry.2.bit?.isSome)
    (namesOnly otherOnly : Bool) (asked otherAsked : List Query) :
    ∃ a b t u, Analysis.start text bindings namesOnly = .ok a ∧
      Analysis.start other otherBindings otherOnly = .ok b ∧
      (a.after asked).ensureTable.1 = .ok t ∧ (b.after otherAsked).ensureTable.1 = .ok u ∧
      (∀ f, f.isCount → ∃ answer,
        a.read asked f = .ok answer ∧ b.read otherAsked f = .ok answer) ∧
      t.SameRows u r parsed.names ∧
      ((∀ x ∈ parsed.names, ∀ y ∈ parsed.names, x < y → r x < r y) →
        t.SameColumns u ∧
        (∀ f, f.isNumbering → ∃ answer,
          a.read asked f = .ok answer ∧ b.read otherAsked f = .ok answer) ∧
        ∀ polarity, ∃ form, a.read asked (.chain polarity) = .ok (.text form) ∧
          b.read otherAsked (.chain polarity) = .ok (.text (renamedText r form))) := by
  have otherAccepted := parse_renamedText accepted named spelled
  obtain ⟨_, names⟩ := parsed_eq accepted
  have same : ∀ name, name ∈ parsed.names ↔ name ∈ parsed.root.names := by simp [names]
  have leaves : ∀ name ∈ parsed.root.names, Word.IsName (r name) := fun name member =>
    named name ((same name).mpr member)
  simp only [same] at injective
  have tabular := tabular_of_parse accepted few
  have otherTabular := tabular.rename injective leaves
  have formed := tabular.formed
  obtain ⟨bound, started⟩ := Analysis.exists_start accepted valid namesOnly
  obtain ⟨otherBound, otherStarted⟩ := Analysis.exists_start otherAccepted otherValid otherOnly
  refine ⟨_, _, parsed.root.tableOf namesOnly ((asked.foldl Query.keeps none).getD false),
    (parsed.root.rename r).tableOf otherOnly ((otherAsked.foldl Query.keeps none).getD false),
    started, otherStarted, ?_, ?_, fun f count => ?_,
    formed.sameRows tabular.named leaves injective same _ _ _ _, fun ordered => ?_⟩
  · rw [Analysis.after_stage tabular, Analysis.ensureTable_stage tabular]
  · rw [Analysis.after_stage otherTabular, Analysis.ensureTable_stage otherTabular]
  · have single : f ≠ .columns := by
      rintro rfl
      cases count
    refine ⟨_, tabular.read_stage _ _ _ _ single, ?_⟩
    rw [otherTabular.read_stage _ _ _ _ single, Expr.answer_rename_of_isCount injective count]
  · simp only [same] at ordered
    refine ⟨formed.sameColumns tabular.named otherTabular.formed otherTabular.named
      (Expr.results_rename ordered) _ _ _ _, fun f numbering => ?_, fun polarity => ?_⟩
    · have single : f ≠ .columns := by
        rintro rfl
        cases numbering
      refine ⟨_, tabular.read_stage _ _ _ _ single, ?_⟩
      rw [otherTabular.read_stage _ _ _ _ single,
        Expr.answer_rename_of_isNumbering ordered numbering]
    · refine ⟨_, tabular.read_stage _ _ _ _ (by simp), ?_⟩
      rw [otherTabular.read_stage _ _ _ _ (by simp), Expr.answer,
        formed.text_form_rename ordered tabular.named leaves]

-- Of two names one begins like the other, and the renaming keeps their order.
theorem renaming_changes_only_the_names_implication :
    let parsed : Parsed := ⟨.binary .implies (.atom "x10") (.atom "x1"), ["x10", "x1"]⟩
    let r : String → String := fun name => if name = "x1" then "a" else "b2"
    let bindings : List (String × Value) := [("x1", .int 1)]
    (parse "(x10>x1)" = .ok parsed ∧ parsed.names.length < 63 ∧
      Set.InjOn r {name | name ∈ parsed.names} ∧
      (∀ name ∈ parsed.names, Word.IsName (r name)) ∧
      Text.solid "(b 2 > a)".toList = (renamedText r "(x10>x1)").toList ∧
      (∀ entry ∈ Entries.ofPairs bindings, entry.2.bit?.isSome) ∧
      (∀ entry ∈ Entries.ofPairs ([] : List (String × Value)), entry.2.bit?.isSome) ∧
      ∀ x ∈ parsed.names, ∀ y ∈ parsed.names, x < y → r x < r y) ∧
    ∃ a b t u, Analysis.start "(x10>x1)" bindings false = .ok a ∧
      Analysis.start "(b 2 > a)" [] true = .ok b ∧
      (a.after [.tabulate true]).ensureTable.1 = .ok t ∧ (b.after []).ensureTable.1 = .ok u ∧
      (∀ f, f.isCount → ∃ answer,
        a.read [.tabulate true] f = .ok answer ∧ b.read [] f = .ok answer) ∧
      t.SameRows u r parsed.names ∧ t.SameColumns u ∧
      (∀ f, f.isNumbering → ∃ answer,
        a.read [.tabulate true] f = .ok answer ∧ b.read [] f = .ok answer) ∧
      ∀ polarity, ∃ form, a.read [.tabulate true] (.chain polarity) = .ok (.text form) ∧
        b.read [] (.chain polarity) = .ok (.text (renamedText r form)) := by
  intro parsed r bindings
  have accepted : parse "(x10>x1)" = .ok parsed := by cbv
  have few : parsed.names.length < 63 := by decide
  have injective : Set.InjOn r {name | name ∈ parsed.names} := by simp [Set.InjOn, parsed, r]
  have named : ∀ name ∈ parsed.names, Word.IsName (r name) := by
    have first : Word.IsName "a" := Word.isName_iff.mpr (by decide)
    have second : Word.IsName "b2" := Word.isName_iff.mpr (by decide)
    simp [parsed, r, first, second]
  have spelled : Text.solid "(b 2 > a)".toList = (renamedText r "(x10>x1)").toList := by cbv
  have valid : ∀ entry ∈ Entries.ofPairs bindings, entry.2.bit?.isSome := by
    simp [bindings, Entries.ofPairs, Entries.set, Value.bit?]
  have otherValid : ∀ entry ∈ Entries.ofPairs ([] : List (String × Value)),
      entry.2.bit?.isSome := by
    simp
  have ordered : ∀ x ∈ parsed.names, ∀ y ∈ parsed.names, x < y → r x < r y := by decide
  obtain ⟨a, b, t, u, started, otherStarted, made, otherMade, counts, rows, rest⟩ :=
    renaming_changes_only_the_names accepted few injective named spelled valid otherValid false
      true [.tabulate true] []
  exact ⟨⟨accepted, few, injective, named, spelled, valid, otherValid, ordered⟩, a, b, t, u, started,
    otherStarted, made, otherMade, counts, rows, rest ordered⟩

theorem conjunction_of_many_has_no_counts_to_keep :
    parse wide.text = .ok ⟨wide, wideNames⟩ ∧
      ∃ a, Analysis.start wide.text [] false = .ok a ∧
        ∀ f, f.isCount → ∀ answer, a.read [] f ≠ .ok answer := by
  obtain ⟨a, started, unread⟩ := Analysis.exists_start_wide
  exact ⟨parse_wide, a, started, fun f _ => unread.unread f⟩

end TruthTables

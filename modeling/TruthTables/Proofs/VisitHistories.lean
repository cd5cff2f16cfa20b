import TruthTables.Proofs.Evaluation

namespace TruthTables

namespace Expr

inductive Drafted : Expr → Prop where
  | atom {name : String} (named : Word.IsName name) : Drafted (.atom name)
  | zero : Drafted (.const 0)
  | one : Drafted (.const 1)
  | not {operand : Expr} (inner : Drafted operand) : Drafted (.not operand)
  | binary {c : Connective} {left right : Expr} (first : Drafted left) (second : Drafted right) :
      Drafted (.binary c left right)
  | pair {left right : Expr} (first : Drafted left) (second : Drafted right) :
      Drafted (.pair left right)
  | hole : Drafted .hole

variable {e left right : Expr}

theorem WellFormed.drafted (formed : e.WellFormed) : e.Drafted := by
  induction formed with
  | atom named => exact .atom named
  | zero => exact .zero
  | one => exact .one
  | not _ inner => exact .not inner
  | binary _ _ first second => exact .binary first second

theorem Drafted.wellFormed (drafted : e.Drafted) (finished : e.isFinished) : e.WellFormed := by
  induction drafted with
  | atom named => exact .atom named
  | zero => exact .zero
  | one => exact .one
  | not _ inner => exact .not (inner finished)
  | binary _ _ first second =>
    obtain ⟨front, back⟩ := Bool.and_eq_true_iff.mp finished
    exact .binary (first front) (second back)
  | pair | hole => cases finished

theorem Drafted.wellFormed_iff (drafted : e.Drafted) : e.WellFormed ↔ e.isFinished :=
  ⟨WellFormed.isFinished, drafted.wellFormed⟩

def pairs : Expr → Nat
  | atom _ | const _ | hole => 0
  | not operand => operand.pairs
  | binary _ left right => left.pairs + right.pairs
  | pair left right => left.pairs + right.pairs + 1

theorem isFinished_iff (spelled : e.isSpelled) : e.isFinished ↔ e.pairs = 0 := by
  induction e with
  | atom | const => simp [isFinished, pairs]
  | not operand inner => exact inner spelled
  | binary c left right first second =>
    obtain ⟨front, back⟩ := Bool.and_eq_true_iff.mp spelled
    simp only [isFinished, Bool.and_eq_true, first front, second back, pairs, Nat.add_eq_zero_iff]
  | pair left right => simp [isFinished, pairs]
  | hole => cases spelled

end Expr

-- An opening bracket counts up, the glyph of an operator counts down.
def leaning (c : Char) : Int :=
  if c = '(' then 1
  else if c = negationGlyph ∨ (Connective.ofGlyph? c).isSome then -1
  else 0

def excess (text : String) : Int := (text.toList.map leaning).sum

@[simp] theorem excess_append (front back : String) :
    excess (front ++ back) = excess front + excess back := by
  simp [excess]

theorem excess_symbol (c : Connective) : excess c.symbol = -1 := by
  cases c <;> decide

theorem leaning_of_isAlphanum {c : Char} (alphanum : c.isAlphanum) : leaning c = 0 := by
  unfold leaning
  split
  · rename_i opening
    exact absurd alphanum (by rw [opening]; decide)
  · split
    · rename_i glyph
      rcases glyph with negation | found
      · exact absurd alphanum (by rw [negation]; decide)
      · obtain ⟨connective, known⟩ := Option.isSome_iff_exists.mp found
        rw [← Connective.glyph_of_ofGlyph? known] at alphanum
        cases connective <;> exact absurd alphanum (by decide)
    · rfl

theorem excess_of_isLeaf {word : String} (sound : Word.IsLeaf word) : excess word = 0 := by
  refine List.sum_eq_zero fun x member => ?_
  obtain ⟨c, within, rfl⟩ := List.mem_map.mp member
  exact leaning_of_isAlphanum (Word.alphanum_of_isLeaf sound c within)

namespace Expr

variable {e p : Expr}

-- Each bracket of a drafted expression has an operator in it, except those of the pairs.
theorem Drafted.excess_text (drafted : e.Drafted) : excess e.text = e.pairs := by
  have opening : excess "(" = 1 := by decide
  have closing : excess ")" = 0 := by decide
  have negation : excess negationSymbol = -1 := by decide
  induction drafted with
  | atom named => exact excess_of_isLeaf (.inl named)
  | zero | one => decide
  | not _ inner =>
    simp only [text, excess_append, opening, negation, inner, closing, pairs]
    omega
  | binary _ _ first second =>
    simp only [text, excess_append, opening, first, excess_symbol, second, closing, pairs]
    omega
  | pair _ _ first second =>
    simp only [text, excess_append, opening, first, second, closing, pairs]
    omega
  | hole => rfl

-- So an unfinished expression that has a text shares it with no well-formed one.
theorem Drafted.text_ne (drafted : e.Drafted) (spelled : e.isSpelled)
    (unfinished : e.isFinished = false) (formed : p.WellFormed) : p.text ≠ e.text := by
  intro same
  have whole : p.pairs = 0 :=
    (isFinished_iff (isSpelled_of_isFinished formed.isFinished)).mp formed.isFinished
  have lacking : e.pairs ≠ 0 := fun none => by
    simp [(isFinished_iff spelled).mpr none] at unfinished
  have counted := formed.drafted.excess_text
  rw [same, drafted.excess_text] at counted
  omega

structure Enterable (e : Expr) : Prop where
  formed : e.WellFormed
  inner : ∀ value, e ≠ .const value

end Expr

inductive Grown (seen : List Expr) : List Expr → Prop where
  | same : Grown seen seen
  | more {later : List Expr} {e : Expr} (grown : Grown seen later) (new : e.Enterable) :
      Grown seen (enlist later e)

namespace Grown

variable {seen middle later : List Expr}

theorem trans (first : Grown seen middle) (second : Grown middle later) : Grown seen later := by
  induction second with
  | same => exact first
  | more _ new ih => exact .more ih new

theorem enterable (grown : Grown seen later) (before : ∀ p ∈ seen, p.Enterable) :
    ∀ p ∈ later, p.Enterable := by
  induction grown with
  | same => exact before
  | more _ new ih =>
    intro p member
    rcases mem_enlist.mp member with old | rfl
    · exact ih p old
    · exact new

theorem nodup (grown : Grown seen later) (distinct : seen.Nodup) : later.Nodup := by
  induction grown with
  | same => exact distinct
  | more _ _ ih => exact nodup_enlist ih _

theorem begins (grown : Grown seen later) : seen <+: later := by
  induction grown with
  | same => exact List.prefix_rfl
  | more _ _ ih =>
    unfold enlist
    split
    · exact ih
    · exact ih.trans (List.prefix_append ..)

end Grown

section Visits

variable (bindings : Assignment) {namesOnly : Bool} {seen : List Expr} {e : Expr}

theorem Expr.Drafted.get?_entriesOf (drafted : e.Drafted) (spelled : e.isSpelled)
    (formed : ∀ p ∈ seen, p.WellFormed) :
    (entriesOf bindings seen).get? e.text =
      if e ∈ seen then some (e.valueUnder bindings) else none := by
  cases finished : e.isFinished with
  | true => exact TruthTables.get?_entriesOf bindings formed (drafted.wellFormed finished)
  | false =>
    have other : ∀ p ∈ seen, p.text ≠ e.text := fun p member =>
      drafted.text_ne spelled finished (formed p member)
    have fresh : e ∉ seen := fun member => other e member rfl
    rw [if_neg fresh]
    clear fresh formed
    induction seen with
    | nil => rfl
    | cons p rest ih =>
      have here := other p (List.mem_cons_self ..)
      simp only [entriesOf, List.map_cons, Entries.get?, here, ↓reduceIte]
      exact ih fun q member => other q (List.mem_cons_of_mem _ member)

def Expr.outcomeUnder (e : Expr) : Except Unfinished TruthValue :=
  if e.isFinished then .ok (e.valueUnder bindings) else .error {}

theorem Expr.WellFormed.outcomeUnder (formed : e.WellFormed) :
    e.outcomeUnder bindings = .ok (e.valueUnder bindings) := if_pos formed.isFinished

theorem Expr.outcomeUnder_of_unfinished (unfinished : e.isFinished = false) :
    e.outcomeUnder bindings = .error {} := by
  simp [Expr.outcomeUnder, unfinished]

-- A visit returns the outcome and does nothing but to enter some more expressions, also where it
-- fails. How far it comes then is left open.
def Extends (visit : Visit) (namesOnly : Bool) (e : Expr) : Prop :=
  ∀ seen : List Expr, (∀ p ∈ seen, p.Enterable) → ∃ later, Grown seen later ∧
    visit (holding bindings namesOnly seen) =
      (e.outcomeUnder bindings, holding bindings namesOnly later)

theorem enter_enterable (namesOnly : Bool) (before : ∀ p ∈ seen, p.Enterable)
    (whole : e.Enterable) :
    ∃ later, Grown seen later ∧
      (holding bindings namesOnly seen).enter e.text (e.valueUnder bindings) =
        (e.valueUnder bindings, holding bindings namesOnly later) := by
  cases namesOnly with
  | true => exact ⟨seen, .same, rfl⟩
  | false =>
    refine ⟨enlist seen e, .more .same whole, ?_⟩
    simp only [Valuation.enter, holding,
      set_entriesOf bindings (fun p member => (before p member).formed) whole.formed]
    rfl

-- The look-up finds nothing, and then it is as if there were none, or it finds the value.
theorem Extends.consult (drafted : e.Drafted) (extended : Extends bindings e.visit namesOnly e) :
    Extends bindings (e.consult e.visit) namesOnly e := by
  intro seen before
  cases spelled : e.isSpelled with
  | false =>
    have unfinished : e.isFinished = false := Bool.eq_false_iff.mpr fun finished =>
      Bool.eq_false_iff.mp spelled (Expr.isSpelled_of_isFinished finished)
    have keyless : e.text? = .error {} := by simp [Expr.text?, spelled]
    refine ⟨seen, .same, ?_⟩
    rw [Expr.consult, keyless, Expr.outcomeUnder_of_unfinished bindings unfinished]
  | true =>
    have keyed : e.text? = .ok e.text := if_pos spelled
    have found := drafted.get?_entriesOf bindings spelled fun p member => (before p member).formed
    rw [Expr.consult, keyed]
    by_cases known : e ∈ seen
    · refine ⟨seen, .same, ?_⟩
      simp [holding, found, known, (before e known).formed.outcomeUnder]
    · have fresh : (holding bindings namesOnly seen).entries.get? e.text = none := by
        rw [if_neg known] at found
        exact found
      simp only [fresh]
      exact extended seen before

-- One case per constructor. A failure hands on what had been entered up to then.
theorem Expr.Drafted.extends (drafted : e.Drafted) : Extends bindings e.visit namesOnly e := by
  induction drafted with
  | @atom name named =>
    intro seen before
    have value : (holding bindings namesOnly seen).ofName name =
        (Expr.atom name).valueUnder bindings := (Expr.valueUnder_atom name).symm
    have set := set_entriesOf bindings (fun p member => (before p member).formed) (.atom named)
    refine ⟨enlist seen (.atom name), .more .same ⟨.atom named, by simp⟩, ?_⟩
    simp only [Expr.visit, Valuation.enterName, value, (Expr.WellFormed.atom named).outcomeUnder]
    rw [holding, holding, ← set]
    rfl
  | zero => exact fun seen _ => ⟨seen, .same, rfl⟩
  | one => exact fun seen _ => ⟨seen, .same, rfl⟩
  | @not operand inner ih =>
    intro seen before
    obtain ⟨within, grown, looked⟩ := ih.consult bindings inner seen before
    cases finished : operand.isFinished with
    | false =>
      rw [Expr.outcomeUnder_of_unfinished bindings finished] at looked
      refine ⟨within, grown, ?_⟩
      simp only [Expr.visit, looked]
      rw [Expr.outcomeUnder_of_unfinished bindings (by simpa [Expr.isFinished] using finished)]
    | true =>
      have formed := inner.wellFormed finished
      rw [formed.outcomeUnder] at looked
      obtain ⟨last, whole, entered⟩ := enter_enterable bindings namesOnly
        (grown.enterable before) (e := .not operand) ⟨.not formed, by simp⟩
      refine ⟨last, grown.trans whole, ?_⟩
      rw [Expr.valueUnder_not] at entered
      simp only [Expr.visit, looked, entered]
      rw [(Expr.WellFormed.not formed).outcomeUnder, Expr.valueUnder_not]
  | @binary c left right draftedLeft draftedRight first second =>
    intro seen before
    obtain ⟨front, grownFront, looked⟩ := first.consult bindings draftedLeft seen before
    cases finished : left.isFinished with
    | false =>
      rw [Expr.outcomeUnder_of_unfinished bindings finished] at looked
      refine ⟨front, grownFront, ?_⟩
      simp only [Expr.visit, looked]
      rw [Expr.outcomeUnder_of_unfinished bindings (by simp [Expr.isFinished, finished])]
    | true =>
      have formedLeft := draftedLeft.wellFormed finished
      rw [formedLeft.outcomeUnder] at looked
      have middle := grownFront.enterable before
      obtain ⟨back, grownBack, again⟩ := second.consult bindings draftedRight front middle
      cases finishedRight : right.isFinished with
      | false =>
        rw [Expr.outcomeUnder_of_unfinished bindings finishedRight] at again
        refine ⟨back, grownFront.trans grownBack, ?_⟩
        simp only [Expr.visit, looked, again]
        rw [Expr.outcomeUnder_of_unfinished bindings (by simp [Expr.isFinished, finishedRight])]
      | true =>
        have formedRight := draftedRight.wellFormed finishedRight
        have formed : (Expr.binary c left right).WellFormed := .binary formedLeft formedRight
        rw [formedRight.outcomeUnder] at again
        obtain ⟨last, whole, entered⟩ := enter_enterable bindings namesOnly
          (grownBack.enterable middle) ⟨formed, by simp⟩
        refine ⟨last, (grownFront.trans grownBack).trans whole, ?_⟩
        rw [Expr.valueUnder_binary] at entered
        simp only [Expr.visit, looked, again, entered]
        rw [formed.outcomeUnder, Expr.valueUnder_binary]
  | pair => exact fun seen _ => ⟨seen, .same, rfl⟩
  | hole => exact fun seen _ => ⟨seen, .same, rfl⟩

end Visits

namespace Valuation

def after (v : Valuation) (visited : List Expr) : Valuation :=
  visited.foldl (fun v e => (e.visit v).2) v

variable {bindings : Assignment} {namesOnly : Bool} {v : Valuation}

def Sound (bindings : Assignment) (namesOnly : Bool) (v : Valuation) : Prop :=
  ∃ seen : List Expr, (∀ p ∈ seen, p.Enterable) ∧ seen.Nodup ∧ v = holding bindings namesOnly seen

theorem sound_start (bindings : Assignment) (namesOnly : Bool) :
    (start bindings namesOnly).Sound bindings namesOnly := ⟨[], by simp, .nil, rfl⟩

theorem Sound.visit (sound : v.Sound bindings namesOnly) {e : Expr} (drafted : e.Drafted) :
    (e.visit v).1 = e.outcomeUnder bindings ∧ (e.visit v).2.Sound bindings namesOnly ∧
      v.entries <+: (e.visit v).2.entries := by
  obtain ⟨seen, before, distinct, rfl⟩ := sound
  obtain ⟨later, grown, visited⟩ := drafted.extends bindings seen before
  rw [visited]
  exact ⟨rfl, ⟨later, grown.enterable before, grown.nodup distinct, rfl⟩, grown.begins.map _⟩

theorem Sound.after (sound : v.Sound bindings namesOnly) {visited : List Expr}
    (drafted : ∀ e ∈ visited, e.Drafted) :
    (v.after visited).Sound bindings namesOnly ∧ v.entries <+: (v.after visited).entries := by
  induction visited generalizing v with
  | nil => exact ⟨sound, List.prefix_rfl⟩
  | cons e rest ih =>
    obtain ⟨_, next, kept⟩ := sound.visit (drafted e (List.mem_cons_self ..))
    obtain ⟨last, later⟩ := ih next fun p member => drafted p (List.mem_cons_of_mem _ member)
    exact ⟨last, kept.trans later⟩

theorem Sound.nodup_keys (sound : v.Sound bindings namesOnly) : v.entries.keys.Nodup := by
  obtain ⟨seen, before, distinct, rfl⟩ := sound
  exact nodup_keys_entriesOf bindings (fun p member => (before p member).formed) distinct

theorem Sound.of_mem (sound : v.Sound bindings namesOnly) {key : String} {value : TruthValue}
    (member : (key, value) ∈ v.entries) :
    ∃ e : Expr, e.Enterable ∧ e.text? = .ok key ∧ value = e.valueUnder bindings := by
  obtain ⟨seen, before, _, rfl⟩ := sound
  obtain ⟨e, known, same⟩ := List.mem_map.mp member
  cases same
  exact ⟨e, before e known, (before e known).formed.text?, rfl⟩

end Valuation

theorem valuation_stays_sound (bindings : List (String × Value))
    (bits : ∀ entry ∈ Entries.ofPairs bindings, entry.2.bit?.isSome) (namesOnly : Bool)
    (visited : List Expr) (drafted : ∀ e ∈ visited, e.Drafted) :
    ∃ assignment, Assignment.ofBindings bindings = .ok assignment ∧
      (∀ name, assignment.get? name = ((Entries.ofPairs bindings).get? name).bind Value.bit?) ∧
      ∃ v, v = (Valuation.start assignment namesOnly).after visited ∧
        v.entries.keys.Nodup ∧
        (∀ key value, (key, value) ∈ v.entries →
          ∃ e : Expr, e.WellFormed ∧ (∀ bit, e ≠ .const bit) ∧ e.text? = .ok key ∧
            value = e.valueUnder assignment) ∧
        (∀ more, (∀ e ∈ more, e.Drafted) → v.entries <+: (v.after more).entries) ∧
        (∀ e : Expr, e.WellFormed → (e.visit v).1 = .ok (e.valueUnder assignment)) ∧
        ∀ e : Expr, e.Drafted → ¬e.WellFormed → (e.visit v).1 = .error {} := by
  obtain ⟨assignment, made, same⟩ := Assignment.ofEntries_get? bits
  obtain ⟨sound, _⟩ := (Valuation.sound_start assignment namesOnly).after drafted
  refine ⟨assignment, made, same, _, rfl, sound.nodup_keys, ?_, ?_, ?_, ?_⟩
  · intro key value member
    obtain ⟨e, ⟨formed, inner⟩, keyed, valued⟩ := sound.of_mem member
    exact ⟨e, formed, inner, keyed, valued⟩
  · intro more later
    exact (sound.after later).2
  · intro e formed
    rw [(sound.visit formed.drafted).1, formed.outcomeUnder]
  · intro e draft unformed
    have unfinished : e.isFinished = false := by
      simpa [draft.wellFormed_iff] using unformed
    rw [(sound.visit draft).1, Expr.outcomeUnder_of_unfinished assignment unfinished]

-- A visit that fails at a missing operand and one that fails at a missing connective, each after
-- something was entered.
theorem valuation_stays_sound_failing :
    let x : Expr := .atom "x"
    let y : Expr := .atom "y"
    let visited : List Expr := [.binary .or (.not x) .hole, .binary .and y (.not (.pair x y))]
    let bindings : List (String × Value) := [("x", .int 1)]
    (∀ entry ∈ Entries.ofPairs bindings, entry.2.bit?.isSome) ∧ (∀ e ∈ visited, e.Drafted) ∧
      ∃ assignment v, Assignment.ofBindings bindings = .ok assignment ∧
        v = (Valuation.start assignment false).after visited ∧
        v.entries = [("x", .known 1), ("(¬x)", .known 0), ("y", .symbolic "y")] ∧
        v.entries <+: (v.after visited).entries ∧
        ((Expr.binary .or (.not x) y).visit v).1 = .ok (.symbolic "((¬x)+y)") := by
  intro x y visited bindings
  have first : Word.IsName "x" := Word.isName_iff.mpr (by decide)
  have second : Word.IsName "y" := Word.isName_iff.mpr (by decide)
  have bits : ∀ entry ∈ Entries.ofPairs bindings, entry.2.bit?.isSome := by
    simp [bindings, Entries.ofPairs, Entries.set, Value.bit?]
  have drafted : ∀ e ∈ visited, e.Drafted := by
    simp only [visited, List.forall_mem_cons, List.not_mem_nil, false_implies, implies_true,
      and_true]
    exact ⟨.binary (.not (.atom first)) .hole,
      .binary (.atom second) (.not (.pair (.atom first) (.atom second)))⟩
  obtain ⟨assignment, made, _, v, reached, _, _, lasting, valued, _⟩ :=
    valuation_stays_sound bindings bits false visited drafted
  have known : assignment = [("x", true)] := by
    have made' : Assignment.ofBindings bindings = .ok [("x", true)] := by rfl
    rw [made] at made'
    exact Except.ok.inj made'
  subst known
  have value := valued (.binary .or (.not x) y) (.binary (.not (.atom first)) (.atom second))
  refine ⟨bits, drafted, _, v, made, reached, ?_, lasting visited drafted, ?_⟩
  · rw [reached]
    decide
  · rw [value]
    decide

end TruthTables

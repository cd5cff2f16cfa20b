import TruthTables.Proofs.Acceptance

namespace TruthTables

namespace Token

theorem apart_append {front back : List Token} {t : Token} (sign : t.isWord = false)
    (first : front.IsChain fun a b => ¬(a.isWord ∧ b.isWord))
    (second : (t :: back).IsChain fun a b => ¬(a.isWord ∧ b.isWord)) :
    (front ++ t :: back).IsChain fun a b => ¬(a.isWord ∧ b.isWord) := by
  refine List.isChain_append.mpr ⟨first, second, ?_⟩
  intro a _ b head
  obtain rfl : t = b := by simpa using head
  simp [sign]

theorem apart_cons {tokens : List Token} {t : Token} (sign : t.isWord = false)
    (later : tokens.IsChain fun a b => ¬(a.isWord ∧ b.isWord)) :
    (t :: tokens).IsChain fun a b => ¬(a.isWord ∧ b.isWord) :=
  List.isChain_cons.mpr ⟨by simp [sign], later⟩

theorem isBlank_eq_false_of_isAlphanum {c : Char} (alphanum : c.isAlphanum) :
    Text.isBlank c = false := by
  have zero : '0'.val.toNat = 48 := rfl
  have upper : 'A'.val.toNat = 65 := rfl
  have lower : 'a'.val.toNat = 97 := rfl
  have last : 'z'.val.toNat = 122 := rfl
  have nine : '9'.val.toNat = 57 := rfl
  have capital : 'Z'.val.toNat = 90 := rfl
  have code : c.toNat = c.val.toNat := rfl
  simp only [Char.isAlphanum, Char.isAlpha, Char.isUpper, Char.isLower, Char.isDigit,
    Bool.or_eq_true, Bool.and_eq_true, decide_eq_true_eq, UInt32.le_iff_toNat_le] at alphanum
  simp only [Text.isBlank, Bool.or_eq_false_iff, Bool.and_eq_false_iff, decide_eq_false_iff_not,
    beq_eq_false_iff_ne]
  omega

theorem isBlank_eq_false_of_inAlphabet {c : Char} (known : InAlphabet c) :
    Text.isBlank c = false := by
  rcases known with alphanum | sign
  · exact isBlank_eq_false_of_isAlphanum alphanum
  · simp only [List.mem_cons, List.not_mem_nil, or_false] at sign
    rcases sign with rfl | rfl | rfl | rfl | rfl | rfl | rfl <;> decide

end Token

-- A derivation never puts two words next to each other.
theorem Derivation.apart (d : Derivation) :
    d.tokens.IsChain fun a b => ¬(a.isWord ∧ b.isWord) := by
  induction d with
  | leaf word => exact .singleton _
  | bare operand ih => exact Token.apart_cons rfl ih
  | bracketed operand ih =>
    have closed := Token.apart_append rfl ih (.singleton Token.closing)
    exact Token.apart_cons rfl (Token.apart_cons rfl closed)
  | applied c left right first second =>
    have closed := Token.apart_append rfl second (.singleton Token.closing)
    have joined := Token.apart_append rfl first (Token.apart_cons (t := .connective c) rfl closed)
    exact Token.apart_cons rfl joined

theorem Derivation.isLeaf_of_mem {d : Derivation} (sound : d.IsSound) {word : String}
    (member : .word word ∈ d.tokens) : Word.IsLeaf word := by
  induction d with
  | leaf text =>
    simp only [tokens, List.mem_singleton, Token.word.injEq] at member
    rw [member]
    exact sound
  | bare operand ih => exact ih sound (by simpa [tokens] using member)
  | bracketed operand ih => exact ih sound (by simpa [tokens] using member)
  | applied c left right first second =>
    have either : .word word ∈ left.tokens ∨ .word word ∈ right.tokens := by
      simpa [tokens] using member
    rcases either with front | back
    · exact first sound.1 front
    · exact second sound.2 back

theorem Derivation.cut {d : Derivation} (sound : d.IsSound) :
    Cut (d.tokens.flatMap (·.text.toList)) d.tokens :=
  ⟨rfl, fun _ member => ⟨Word.ne_empty_of_isLeaf (isLeaf_of_mem sound member),
    Word.alphanum_of_isLeaf (isLeaf_of_mem sound member)⟩, d.apart⟩

theorem Cut.solid {chars : List Char} {tokens : List Token} (cut : Cut chars tokens) :
    Text.solid chars = chars := by
  apply List.filter_eq_self.mpr
  intro c member
  simp [Token.isBlank_eq_false_of_inAlphabet (cut.inAlphabet c member)]

namespace Expr

theorem WellFormed.exists_derivation {e : Expr} (formed : e.WellFormed) :
    ∃ d : Derivation, d.IsSound ∧ d.expr = e ∧ Cut e.text.toList d.tokens := by
  obtain ⟨tokens, derived, spelled⟩ := Derives.exists_of_wellFormed formed
  obtain ⟨d, sound, rfl, rfl⟩ := derives_iff.mp derived
  refine ⟨d, sound, rfl, ?_⟩
  have chars : d.expr.text.toList = d.tokens.flatMap (·.text.toList) := by
    rw [← spelled, String.toList_join, List.flatMap_map]
  rw [chars]
  exact Derivation.cut sound

theorem WellFormed.text? {e : Expr} (formed : e.WellFormed) : e.text? = .ok e.text :=
  if_pos (isSpelled_of_isFinished formed.isFinished)

theorem text_inj {a b : Expr} (formed : a.WellFormed) (other : b.WellFormed) :
    a.text = b.text ↔ a = b := by
  constructor
  · intro same
    obtain ⟨d, _, rfl, cut⟩ := formed.exists_derivation
    obtain ⟨d', _, rfl, again⟩ := other.exists_derivation
    rw [same] at cut
    rw [Derivation.eq_of_tokens_eq (cut.unique again)]
  · rintro rfl
    rfl

theorem parse_text {e : Expr} (formed : e.WellFormed) (named : e.names ≠ []) :
    parse e.text = .ok ⟨e, e.names.eraseDups⟩ := by
  obtain ⟨d, sound, rfl, cut⟩ := formed.exists_derivation
  refine parse_eq_ok_iff.mpr ⟨d, sound, ?_, named, rfl⟩
  rwa [cut.solid]

end Expr

theorem parsed_eq {text : String} {parsed : Parsed} (accepted : parse text = .ok parsed) :
    parsed.root.names ≠ [] ∧ parsed.names = parsed.root.names.eraseDups := by
  obtain ⟨d, _, _, named, rfl⟩ := parse_eq_ok_iff.mp accepted
  exact ⟨named, rfl⟩

theorem text_faithful :
    (∀ e : Expr, e.WellFormed → e.names ≠ [] →
      ∃ key, e.text? = .ok key ∧ parse key = .ok ⟨e, e.names.eraseDups⟩) ∧
    (∀ text parsed, parse text = .ok parsed →
      ∃ key, parsed.root.text? = .ok key ∧ parse key = .ok parsed) ∧
    (∀ a b : Expr, a.WellFormed → b.WellFormed →
      ∃ key other, a.text? = .ok key ∧ b.text? = .ok other ∧ (key = other ↔ a = b)) := by
  refine ⟨?_, ?_, ?_⟩
  · intro e formed named
    exact ⟨e.text, formed.text?, e.parse_text formed named⟩
  · intro text parsed accepted
    have formed := parse_wellFormed accepted
    obtain ⟨named, distinct⟩ := parsed_eq accepted
    refine ⟨parsed.root.text, formed.text?, ?_⟩
    rw [parsed.root.parse_text formed named, ← distinct]
  · intro a b formed other
    exact ⟨a.text, b.text, formed.text?, other.text?, Expr.text_inj formed other⟩

-- Names that begin alike, a constant next to a name, and a negation right after a bracket.
theorem text_faithful_nested :
    let e : Expr := .binary .equiv (.not (.binary .or (.atom "x1") (.const 1))) (.atom "x10")
    (e.WellFormed ∧ e.names ≠ [] ∧
        ∃ key, e.text? = .ok key ∧ parse key = .ok ⟨e, e.names.eraseDups⟩) ∧
      (parse "((¬(x1+1))~x10)" = .ok ⟨e, ["x1", "x10"]⟩ ∧
        ∃ key, e.text? = .ok key ∧ parse key = .ok ⟨e, ["x1", "x10"]⟩) ∧
      (Expr.const 1).WellFormed ∧
        ∃ key other, e.text? = .ok key ∧ (Expr.const 1).text? = .ok other ∧
          (key = other ↔ e = .const 1) := by
  intro e
  have first : Word.IsName "x1" := Word.isName_iff.mpr (by decide)
  have second : Word.IsName "x10" := Word.isName_iff.mpr (by decide)
  have formed : e.WellFormed := .binary (.not (.binary (.atom first) .one)) (.atom second)
  have named : e.names ≠ [] := by simp [e, Expr.names]
  have accepted : parse "((¬(x1+1))~x10)" = .ok ⟨e, ["x1", "x10"]⟩ := by cbv
  exact ⟨⟨formed, named, text_faithful.1 e formed named⟩,
    ⟨accepted, text_faithful.2.1 _ _ accepted⟩,
    .one, text_faithful.2.2 e (.const 1) formed .one⟩

end TruthTables

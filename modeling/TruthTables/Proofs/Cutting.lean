import TruthTables.Proofs.Words
import TruthTables.Token.Lexer

namespace TruthTables

namespace Token

def isWord : Token → Bool
  | word _ => true
  | _ => false

def InAlphabet (c : Char) : Prop := c.isAlphanum ∨ c ∈ ['¬', '•', '+', '>', '~', '(', ')']

-- Every token but a word is a single character, and the scan knows it by that character.
theorem sign_of_not_isWord {t : Token} (sign : t.isWord = false) :
    ∃ c, t.text.toList = [c] ∧ ofGlyph? c = some t ∧ c.isAlphanum = false ∧
      Lexer.isGap c = false := by
  cases t with
  | not => exact ⟨'¬', rfl, rfl, rfl, rfl⟩
  | connective c =>
    cases c with
    | and => exact ⟨'•', rfl, rfl, rfl, rfl⟩
    | or => exact ⟨'+', rfl, rfl, rfl, rfl⟩
    | implies => exact ⟨'>', rfl, rfl, rfl, rfl⟩
    | equiv => exact ⟨'~', rfl, rfl, rfl, rfl⟩
  | opening => exact ⟨'(', rfl, rfl, rfl, rfl⟩
  | closing => exact ⟨')', rfl, rfl, rfl, rfl⟩
  | word text => cases sign

theorem text_of_ofGlyph? {c : Char} {t : Token} (found : ofGlyph? c = some t) :
    t.isWord = false ∧ t.text.toList = [c] := by
  unfold ofGlyph? at found
  split at found
  · rename_i same
    cases found
    exact ⟨rfl, by rw [same]; rfl⟩
  · split at found
    · rename_i same
      cases found
      exact ⟨rfl, by rw [same]; rfl⟩
    · split at found
      · rename_i same
        cases found
        exact ⟨rfl, by rw [same]; rfl⟩
      · obtain ⟨operator, known, rfl⟩ := Option.map_eq_some_iff.mp found
        rw [← Connective.glyph_of_ofGlyph? known]
        exact ⟨rfl, by simp [text, Connective.symbol]⟩

theorem inAlphabet_of_ofGlyph? {c : Char} {t : Token} (found : ofGlyph? c = some t) :
    InAlphabet c := by
  obtain ⟨sign, spelled⟩ := text_of_ofGlyph? found
  right
  cases t with
  | not => cases spelled; decide
  | connective operator =>
    cases operator <;> (cases spelled; decide)
  | opening => cases spelled; decide
  | closing => cases spelled; decide
  | word text => cases sign

theorem isAlphanum_of_inAlphabet {c : Char} (known : InAlphabet c) (sign : ofGlyph? c = none) :
    c.isAlphanum := by
  rcases known with alphanum | glyph
  · exact alphanum
  · simp only [List.mem_cons, List.not_mem_nil, or_false] at glyph
    rcases glyph with rfl | rfl | rfl | rfl | rfl | rfl | rfl <;> cases sign

end Token

structure Cut (chars : List Char) (tokens : List Token) : Prop where
  spelled : tokens.flatMap (·.text.toList) = chars
  words : ∀ text, .word text ∈ tokens → text.toList ≠ [] ∧ ∀ c ∈ text.toList, c.isAlphanum
  apart : tokens.IsChain fun a b => ¬(a.isWord ∧ b.isWord)

namespace Cut

theorem nil : Cut [] [] := ⟨rfl, by simp, .nil⟩

theorem cons_sign {chars : List Char} {tokens : List Token} {t : Token} (sign : t.isWord = false)
    (cut : Cut chars tokens) : Cut (t.text.toList ++ chars) (t :: tokens) := by
  refine ⟨by simp [cut.spelled], ?_, ?_⟩
  · intro text member
    rcases List.mem_cons.mp member with rfl | later
    · cases sign
    · exact cut.words text later
  · exact List.isChain_cons.mpr ⟨by simp [sign], cut.apart⟩

theorem cons_word {chars : List Char} {tokens : List Token} {text : String}
    (some : text.toList ≠ []) (alphanum : ∀ c ∈ text.toList, c.isAlphanum)
    (ends : ∀ next ∈ tokens.head?, next.isWord = false) (cut : Cut chars tokens) :
    Cut (text.toList ++ chars) (.word text :: tokens) := by
  refine ⟨by rw [List.flatMap_cons, cut.spelled]; rfl, ?_, ?_⟩
  · intro other member
    rcases List.mem_cons.mp member with same | later
    · cases same
      exact ⟨some, alphanum⟩
    · exact cut.words other later
  · refine List.isChain_cons.mpr ⟨?_, cut.apart⟩
    intro next first
    simp [ends next first]

theorem tail {chars : List Char} {tokens : List Token} {t : Token}
    (cut : Cut chars (t :: tokens)) :
    Cut (tokens.flatMap (·.text.toList)) tokens :=
  ⟨rfl, fun text member => cut.words text (List.mem_cons_of_mem _ member), cut.apart.tail⟩

theorem split {chars : List Char} {tokens : List Token} {t : Token}
    (cut : Cut chars (t :: tokens)) :
    chars = t.text.toList ++ tokens.flatMap (·.text.toList) := by
  simp [← cut.spelled]

theorem ends_word {tokens : List Token} {text : String} {chars : List Char}
    (cut : Cut chars (.word text :: tokens)) :
    ∀ c ∈ (tokens.flatMap (·.text.toList)).head?, c.isAlphanum = false := by
  cases tokens with
  | nil => simp
  | cons next rest =>
    have sign : next.isWord = false := by
      simpa [Token.isWord] using (List.isChain_cons_cons.mp cut.apart).1
    obtain ⟨c, spelled, _, other, _⟩ := Token.sign_of_not_isWord sign
    simp [spelled, other]

theorem first_not_isWord {chars : List Char} {tokens : List Token} (cut : Cut chars tokens)
    (ends : ∀ c ∈ chars.head?, c.isAlphanum = false) :
    ∀ next ∈ tokens.head?, next.isWord = false := by
  cases tokens with
  | nil => simp
  | cons t rest =>
    intro next first
    obtain rfl : t = next := by simpa using first
    cases t with
    | word text =>
      obtain ⟨some, alphanum⟩ := cut.words text (List.mem_cons_self ..)
      cases spelled : text.toList with
      | nil => exact absurd spelled some
      | cons c tail =>
        have plain : c.isAlphanum = false := by
          apply ends c
          rw [cut.split, Token.text, spelled]
          simp
        simp [alphanum c (by simp [spelled])] at plain
    | not | connective | opening | closing => rfl

theorem inAlphabet {chars : List Char} {tokens : List Token} (cut : Cut chars tokens) :
    ∀ c ∈ chars, Token.InAlphabet c := by
  intro c member
  rw [← cut.spelled, List.mem_flatMap] at member
  obtain ⟨t, present, within⟩ := member
  cases found : t.isWord with
  | false =>
    obtain ⟨sign, spelled, known, _⟩ := Token.sign_of_not_isWord found
    rw [spelled, List.mem_singleton] at within
    rw [within]
    exact Token.inAlphabet_of_ofGlyph? known
  | true =>
    cases t with
    | word text => exact .inl ((cut.words text present).2 c within)
    | not | connective | opening | closing => cases found

end Cut

namespace Lexer

theorem isBlank_of_isGap {c : Char} (gap : isGap c) : Text.isBlank c := by
  simp only [isGap, Bool.or_eq_true, decide_eq_true_eq] at gap
  rcases gap with ((rfl | rfl) | rfl) | rfl <;> decide

theorem isGap_eq_false_of_isAlphanum {c : Char} (alphanum : c.isAlphanum) : isGap c = false := by
  rw [Bool.eq_false_iff]
  intro gap
  simp only [isGap, Bool.or_eq_true, decide_eq_true_eq] at gap
  rcases gap with ((rfl | rfl) | rfl) | rfl <;> exact absurd alphanum (by decide)

theorem ofGlyph?_eq_none_of_isAlphanum {c : Char} (alphanum : c.isAlphanum) :
    Token.ofGlyph? c = none := by
  cases found : Token.ofGlyph? c with
  | none => rfl
  | some t =>
    obtain ⟨sign, spelled⟩ := Token.text_of_ofGlyph? found
    obtain ⟨other, same, _, plain, _⟩ := Token.sign_of_not_isWord sign
    obtain rfl : c = other := by simpa [spelled] using same
    simp [plain] at alphanum

theorem scan_of_cut {chars : List Char} {tokens : List Token} (cut : Cut chars tokens)
    (position : Nat) :
    (scan position chars).stopped = none ∧
      (scan position chars).lexemes.map (·.token) = tokens := by
  induction tokens generalizing chars position with
  | nil =>
    have none : chars = [] := cut.spelled.symm
    subst none
    rw [scan]
    exact ⟨rfl, rfl⟩
  | cons t rest ih =>
    cases found : t.isWord with
    | false =>
      obtain ⟨c, spelled, known, _, solid⟩ := Token.sign_of_not_isWord found
      obtain ⟨whole, later⟩ := ih cut.tail (position + 1)
      rw [cut.split, spelled, List.singleton_append, scan]
      simp [solid, known, Scan.cons, whole, later]
    | true =>
      cases t with
      | not | connective | opening | closing => cases found
      | word text =>
        obtain ⟨some, alphanum⟩ := cut.words text (List.mem_cons_self ..)
        cases spelled : text.toList with
        | nil => exact absurd spelled some
        | cons c tail =>
          rw [spelled] at alphanum
          have first : c.isAlphanum := alphanum c (by simp)
          have within : ∀ x ∈ tail, x.isAlphanum = true :=
            fun x member => alphanum x (List.mem_cons_of_mem _ member)
          obtain ⟨taken, dropped⟩ := takeWhile_append_eq within cut.ends_word
          obtain ⟨whole, later⟩ := ih cut.tail (position + 1 + tail.length)
          have written : String.ofList (c :: tail) = text := by rw [← spelled, String.ofList_toList]
          rw [cut.split, Token.text, spelled, List.cons_append, scan]
          simp [isGap_eq_false_of_isAlphanum first, ofGlyph?_eq_none_of_isAlphanum first, first,
            taken, dropped, Scan.cons, whole, later, written]

theorem cut_of_scan {position : Nat} {chars : List Char} (solid : ∀ c ∈ chars, isGap c = false)
    (whole : (scan position chars).stopped = none) :
    Cut chars ((scan position chars).lexemes.map (·.token)) := by
  fun_induction scan position chars with
  | case1 => exact .nil
  | case2 position c rest gap ih =>
    simp [solid c (by simp)] at gap
  | case3 position c rest noGap t known ih =>
    obtain ⟨sign, spelled⟩ := Token.text_of_ofGlyph? known
    have cut := (ih (fun x member => solid x (List.mem_cons_of_mem _ member)) whole).cons_sign sign
    simpa [spelled, Scan.cons] using cut
  | case4 position c rest noGap noSign first tail ih =>
    have later : ∀ x ∈ rest.dropWhile Char.isAlphanum, isGap x = false := fun x member =>
      solid x (List.mem_cons_of_mem _ ((List.dropWhile_sublist _).mem member))
    have alphanum : ∀ x ∈ (String.ofList (c :: tail)).toList, x.isAlphanum := by
      intro x member
      rw [String.toList_ofList, List.mem_cons] at member
      rcases member with rfl | within
      · exact first
      · exact List.mem_takeWhile_imp within
    have cut := ih later whole
    have ends := cut.first_not_isWord (head?_dropWhile_not rest)
    have word := Cut.cons_word (by simp) alphanum ends cut
    simpa [tail, Scan.cons] using word
  | case5 position c rest noGap noSign other => cases whole

-- A character that a scan gets past: it is in a token or between two of them.
def Passes (c : Char) : Prop := c ∈ [' ', '\t', '\r', '\n'] ∨ Token.InAlphabet c

theorem isGap_iff {c : Char} : isGap c ↔ c ∈ [' ', '\t', '\r', '\n'] := by
  simp [isGap, or_assoc]

theorem stopped_eq_none_of_passes {position : Nat} {chars : List Char}
    (passes : ∀ c ∈ chars, Passes c) : (scan position chars).stopped = none := by
  fun_induction scan position chars with
  | case1 => rfl
  | case2 position c rest gap ih =>
    exact ih fun x member => passes x (List.mem_cons_of_mem _ member)
  | case3 position c rest noGap t sign ih =>
    exact ih fun x member => passes x (List.mem_cons_of_mem _ member)
  | case4 position c rest noGap noSign first tail ih =>
    exact ih fun x member =>
      passes x (List.mem_cons_of_mem _ ((List.dropWhile_sublist _).mem member))
  | case5 position c rest noGap noSign other =>
    rcases passes c (List.mem_cons_self ..) with gap | known
    · exact absurd (isGap_iff.mpr gap) noGap
    · exact absurd (Token.isAlphanum_of_inAlphabet known noSign) other

theorem stopped_eq_none_iff {position : Nat} {chars : List Char}
    (solid : ∀ c ∈ chars, isGap c = false) :
    (scan position chars).stopped = none ↔ ∀ c ∈ chars, Token.InAlphabet c :=
  ⟨fun whole => (cut_of_scan solid whole).inAlphabet,
    fun known => stopped_eq_none_of_passes fun c member => .inr (known c member)⟩

theorem isGap_eq_false_of_mem_solid {text : List Char} {c : Char} (member : c ∈ Text.solid text) :
    isGap c = false := by
  rw [Bool.eq_false_iff]
  intro gap
  have blank := isBlank_of_isGap gap
  simp [Text.isBlank_eq_false_of_mem_solid member] at blank

theorem tokenize_iff_cut {text : String} {tokens : List Token} :
    (∃ lexemes, tokenize text = .ok lexemes ∧ lexemes.map (·.token) = tokens) ↔
      Cut (Text.solid text.toList) tokens := by
  have solid : ∀ c ∈ Text.solid text.toList, isGap c = false :=
    fun c member => isGap_eq_false_of_mem_solid member
  unfold tokenize
  dsimp only
  constructor
  · intro given
    obtain ⟨lexemes, found, rfl⟩ := given
    split at found
    · rename_i whole
      cases found
      exact cut_of_scan solid whole
    · cases found
  · intro cut
    obtain ⟨whole, same⟩ := scan_of_cut cut 0
    rw [whole]
    exact ⟨_, rfl, same⟩

end Lexer

theorem Cut.unique {chars : List Char} {tokens others : List Token} (cut : Cut chars tokens)
    (again : Cut chars others) : tokens = others :=
  (Lexer.scan_of_cut cut 0).2.symm.trans (Lexer.scan_of_cut again 0).2

end TruthTables

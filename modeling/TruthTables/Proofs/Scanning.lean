import TruthTables.Proofs.Cutting

namespace TruthTables

def Lexeme.stop (l : Lexeme) : Nat := l.index + l.token.text.length

-- The first character of a text that is not allowed in it, at its own position.
structure Illegal.IsFirst (illegal : Illegal) (allowed : Char → Prop) (chars : List Char) :
    Prop where
  there : chars[illegal.position]? = some illegal.char
  refused : ¬allowed illegal.char
  earlier : ∀ position < illegal.position, ∀ c, chars[position]? = some c → allowed c

section First

variable {allowed : Char → Prop} {front chars : List Char} {c : Char} {illegal : Illegal}

theorem Illegal.isFirst_append (back : List Char) (earlier : ∀ x ∈ front, allowed x)
    (refused : ¬allowed c) : IsFirst ⟨c, front.length⟩ allowed (front ++ c :: back) := by
  refine ⟨by simp, refused, ?_⟩
  intro position within x found
  rw [List.getElem?_append_left within] at found
  exact earlier x (List.mem_of_getElem? found)

theorem Illegal.IsFirst.exists_append (first : illegal.IsFirst allowed chars) :
    ∃ front back, chars = front ++ illegal.char :: back ∧ illegal.position = front.length ∧
      ∀ x ∈ front, allowed x := by
  obtain ⟨within, there⟩ := List.getElem?_eq_some_iff.mp first.there
  refine ⟨chars.take illegal.position, chars.drop (illegal.position + 1), ?_, ?_, ?_⟩
  · rw [← there, List.cons_getElem_drop_succ, List.take_append_drop]
  · rw [List.length_take]
    omega
  · intro x member
    obtain ⟨position, short, rfl⟩ := List.mem_take_iff_getElem.mp member
    exact first.earlier position (by omega) _ (List.getElem?_eq_getElem _)

theorem all_or_exists_isFirst (allowed : Char → Prop) (chars : List Char) :
    (∀ x ∈ chars, allowed x) ∨ ∃ illegal : Illegal, illegal.IsFirst allowed chars := by
  induction chars with
  | nil => exact .inl (by simp)
  | cons c rest ih =>
    by_cases here : allowed c
    · rcases ih with all | ⟨illegal, first⟩
      · exact .inl (List.forall_mem_cons.mpr ⟨here, all⟩)
      · obtain ⟨front, back, rfl, _, earlier⟩ := first.exists_append
        exact .inr ⟨_, Illegal.isFirst_append back (List.forall_mem_cons.mpr ⟨here, earlier⟩)
          first.refused⟩
    · exact .inr ⟨_, Illegal.isFirst_append rest (List.forall_mem_nil _) here⟩

end First

namespace Lexer

theorem not_isAlphanum_of_not_passes {c : Char} (foreign : ¬Passes c) : c.isAlphanum = false := by
  rw [Bool.eq_false_iff]
  exact fun alphanum => foreign (.inr (.inl alphanum))

theorem scan_of_not_passes {c : Char} (foreign : ¬Passes c) (position : Nat) (rest : List Char) :
    scan position (c :: rest) = .stop c position := by
  have noGap : isGap c = false := by
    rw [Bool.eq_false_iff]
    exact fun gap => foreign (.inl (isGap_iff.mp gap))
  have noSign : Token.ofGlyph? c = none := by
    rw [Option.eq_none_iff_forall_ne_some]
    exact fun t known => foreign (.inr (Token.inAlphabet_of_ofGlyph? known))
  rw [scan, noGap, noSign, not_isAlphanum_of_not_passes foreign]
  rfl

theorem run_append_cons (front back : List Char) {c : Char} (other : c.isAlphanum = false) :
    (front ++ c :: back).takeWhile Char.isAlphanum = front.takeWhile Char.isAlphanum ∧
      (front ++ c :: back).dropWhile Char.isAlphanum =
        front.dropWhile Char.isAlphanum ++ c :: back := by
  induction front with
  | nil => simp [other]
  | cons first front ih =>
    cases alphanum : first.isAlphanum <;> simp [alphanum, ih]

-- The scan does not get past a character that is out of place, and finds before it what it finds in
-- a text that ends there.
theorem scan_append {front : List Char} (back : List Char) {c : Char} (foreign : ¬Passes c)
    (position : Nat) (known : ∀ x ∈ front, Passes x) :
    scan position (front ++ c :: back) =
      ⟨(scan position front).lexemes, some ⟨c, position + front.length⟩⟩ := by
  fun_induction scan position front with
  | case1 position => rw [List.nil_append, scan_of_not_passes foreign]; rfl
  | case2 position first rest gap ih =>
    rw [List.cons_append, scan, if_pos gap,
      ih fun x member => known x (List.mem_cons_of_mem _ member), List.length_cons, Nat.add_assoc,
      Nat.add_comm 1]
  | case3 position first rest noGap t sign ih =>
    rw [List.cons_append, scan, if_neg noGap, sign]
    simp only [ih fun x member => known x (List.mem_cons_of_mem _ member), Scan.cons]
    rw [List.length_cons, Nat.add_assoc, Nat.add_comm 1]
  | case4 position first rest noGap noSign alphanum tail ih =>
    obtain ⟨taken, dropped⟩ := run_append_cons rest back (not_isAlphanum_of_not_passes foreign)
    have later := ih fun x member =>
      known x (List.mem_cons_of_mem _ ((List.dropWhile_sublist _).mem member))
    have whole : tail.length + (rest.dropWhile Char.isAlphanum).length = rest.length := by
      rw [← List.length_append, List.takeWhile_append_dropWhile]
    have place : position + 1 + tail.length + (rest.dropWhile Char.isAlphanum).length =
        position + (first :: rest).length := by
      rw [List.length_cons]
      omega
    rw [List.cons_append, scan, if_neg noGap, noSign]
    simp only [alphanum, ↓reduceIte, taken, dropped, Scan.cons]
    rw [later, place]
  | case5 position first rest noGap noSign other =>
    rcases known first (List.mem_cons_self ..) with gap | known
    · exact absurd (isGap_iff.mpr gap) noGap
    · exact absurd (Token.isAlphanum_of_inAlphabet known noSign) other

-- The lexemes hold the characters that stand at their places, from the given position on. Nothing
-- but gaps is between them, and where a word ends no letter or digit follows.
inductive Covers : Nat → List Char → List Lexeme → Prop where
  | nil (position : Nat) : Covers position [] []
  | gap {position : Nat} {c : Char} {rest : List Char} {lexemes : List Lexeme} (gap : isGap c)
      (later : Covers (position + 1) rest lexemes) : Covers position (c :: rest) lexemes
  | token {position : Nat} {t : Token} {rest : List Char} {lexemes : List Lexeme}
      (some : t.text.toList ≠ [])
      (alphanum : t.isWord → ∀ c ∈ t.text.toList, c.isAlphanum)
      (ends : t.isWord → ∀ c ∈ rest.head?, c.isAlphanum = false)
      (later : Covers (position + t.text.length) rest lexemes) :
      Covers position (t.text.toList ++ rest) (⟨t, position⟩ :: lexemes)

theorem covers_scan {position : Nat} {chars : List Char}
    (whole : (scan position chars).stopped = none) :
    Covers position chars (scan position chars).lexemes := by
  fun_induction scan position chars with
  | case1 position => exact .nil position
  | case2 position c rest gap ih => exact .gap gap (ih whole)
  | case3 position c rest noGap t known ih =>
    obtain ⟨sign, spelled⟩ := Token.text_of_ofGlyph? known
    have width : t.text.length = 1 := by rw [← String.length_toList, spelled]; rfl
    have covered : Covers position (t.text.toList ++ rest)
        (⟨t, position⟩ :: (scan (position + 1) rest).lexemes) :=
      .token (by simp [spelled]) (by simp [sign]) (by simp [sign]) (width ▸ ih whole)
    rwa [spelled] at covered
  | case4 position c rest noGap noSign first tail ih =>
    let t := Token.word (String.ofList (c :: tail))
    have spelled : t.text.toList = c :: tail := String.toList_ofList
    have width : t.text.length = 1 + tail.length := by
      rw [← String.length_toList, spelled, List.length_cons, Nat.add_comm]
    have alphanum : ∀ x ∈ t.text.toList, x.isAlphanum := by
      intro x member
      rw [spelled, List.mem_cons] at member
      rcases member with rfl | within
      · exact first
      · exact List.mem_takeWhile_imp within
    have covered := Covers.token (spelled ▸ List.cons_ne_nil c tail) (fun _ => alphanum)
      (fun _ => head?_dropWhile_not rest)
      (by rw [width, ← Nat.add_assoc]; exact ih whole)
    rwa [spelled, List.cons_append, List.takeWhile_append_dropWhile] at covered
  | case5 position c rest noGap noSign other => cases whole

namespace Covers

variable {position : Nat} {chars : List Char} {lexemes : List Lexeme} {l : Lexeme}

theorem exists_split (covered : Covers position chars lexemes) (member : l ∈ lexemes) :
    ∃ front back, chars = front ++ l.token.text.toList ++ back ∧
      l.index = position + front.length ∧ l.token.text.toList ≠ [] := by
  induction covered with
  | nil => cases member
  | @gap position c rest lexemes gap later ih =>
    obtain ⟨front, back, rfl, place, some⟩ := ih member
    refine ⟨c :: front, back, rfl, ?_, some⟩
    rw [place, List.length_cons]
    omega
  | @token position t rest lexemes some alphanum ends later ih =>
    rcases List.mem_cons.mp member with rfl | member
    · exact ⟨[], rest, rfl, rfl, some⟩
    · obtain ⟨front, back, rfl, place, filled⟩ := ih member
      refine ⟨t.text.toList ++ front, back, by simp, ?_, filled⟩
      rw [place, List.length_append, String.length_toList, Nat.add_assoc]

theorem le_index (covered : Covers position chars lexemes) (member : l ∈ lexemes) :
    position ≤ l.index := by
  obtain ⟨front, back, _, place, _⟩ := covered.exists_split member
  omega

theorem ordered (covered : Covers position chars lexemes) :
    lexemes.Pairwise fun a b => a.stop ≤ b.index := by
  induction covered with
  | nil => exact .nil
  | gap _ _ ih => exact ih
  | token _ _ _ later ih =>
    exact List.pairwise_cons.mpr ⟨fun b member => later.le_index member, ih⟩

theorem skipped (covered : Covers position chars lexemes) {i : Nat} {c : Char}
    (there : chars[i]? = some c)
    (outside : ∀ l ∈ lexemes, ¬(l.index ≤ position + i ∧ position + i < l.stop)) : isGap c := by
  induction covered generalizing i with
  | nil => cases there
  | @gap position first rest lexemes gap later ih =>
    cases i with
    | zero =>
      cases there
      exact gap
    | succ i =>
      refine ih there fun l member => ?_
      rw [Nat.add_assoc, Nat.add_comm 1]
      exact outside l member
  | @token position t rest lexemes some alphanum ends later ih =>
    have beyond : t.text.toList.length ≤ i := by
      have here := outside ⟨t, position⟩ (List.mem_cons_self ..)
      simp only [Lexeme.stop, ← String.length_toList] at here
      omega
    rw [List.getElem?_append_right beyond] at there
    refine ih there fun l member => ?_
    have place : position + t.text.length + (i - t.text.toList.length) = position + i := by
      rw [← String.length_toList]
      omega
    rw [place]
    exact outside l (List.mem_cons_of_mem _ member)

theorem lt_index_of_isWord (covered : Covers position chars lexemes)
    (ends : ∀ c ∈ chars.head?, c.isAlphanum = false) (member : l ∈ lexemes.head?)
    (word : l.token.isWord) : position < l.index := by
  cases covered with
  | nil => cases member
  | gap gap later =>
    have behind := later.le_index (List.mem_of_mem_head? member)
    omega
  | @token _ t rest lexemes some alphanum _ later =>
    cases member
    cases spelled : t.text.toList with
    | nil => exact absurd spelled some
    | cons c tail =>
      have plain : c.isAlphanum = false := by
        apply ends c
        rw [spelled]
        rfl
      rw [alphanum word c (by rw [spelled]; exact List.mem_cons_self ..)] at plain
      cases plain

theorem parted (covered : Covers position chars lexemes) :
    lexemes.IsChain fun a b => a.token.isWord → b.token.isWord → a.stop < b.index := by
  induction covered with
  | nil => exact .nil
  | gap _ _ ih => exact ih
  | token _ _ ends later ih =>
    refine List.isChain_cons.mpr ⟨fun b first word other => ?_, ih⟩
    exact later.lt_index_of_isWord (ends word) first other

theorem index_eq_sum (covered : Covers position chars lexemes)
    (solid : ∀ c ∈ chars, isGap c = false) {front back : List Lexeme}
    (split : lexemes = front ++ l :: back) :
    l.index = position + (front.map (·.token.text.length)).sum := by
  induction covered generalizing front with
  | nil => simp at split
  | gap gap later ih =>
    rw [solid _ (List.mem_cons_self ..)] at gap
    cases gap
  | @token position t rest lexemes some alphanum ends later ih =>
    cases front with
    | nil =>
      cases split
      rfl
    | cons first front =>
      obtain ⟨rfl, later⟩ := List.cons.inj split
      rw [ih (fun c member => solid c (List.mem_append_right _ member)) later, List.map_cons,
        List.sum_cons, Nat.add_assoc]

end Covers

-- The lexemes take up a text in order, word by word and sign by sign, and leave nothing out but
-- gaps, of which there is one between any two words.
structure Partitions (lexemes : List Lexeme) (chars : List Char) : Prop where
  sliced : ∀ l ∈ lexemes, (chars.drop l.index).take l.token.text.length = l.token.text.toList
  filled : ∀ l ∈ lexemes, l.index < l.stop ∧ l.stop ≤ chars.length
  ordered : lexemes.Pairwise fun a b => a.stop ≤ b.index
  skipped : ∀ (i : Nat) c, chars[i]? = some c → (∀ l ∈ lexemes, ¬(l.index ≤ i ∧ i < l.stop)) →
    c ∈ [' ', '\t', '\r', '\n']
  parted : lexemes.IsChain fun a b => a.token.isWord → b.token.isWord → a.stop < b.index

theorem Covers.partitions {lexemes : List Lexeme} {chars : List Char}
    (covered : Covers 0 chars lexemes) : Partitions lexemes chars where
  sliced l member := by
    obtain ⟨front, back, rfl, place, _⟩ := covered.exists_split member
    rw [place, Nat.zero_add, List.append_assoc, List.drop_left, ← String.length_toList,
      List.take_left]
  filled l member := by
    obtain ⟨front, back, rfl, place, some⟩ := covered.exists_split member
    have width := List.length_pos_iff.mpr some
    simp only [Lexeme.stop, List.length_append, ← String.length_toList] at width ⊢
    omega
  ordered := covered.ordered
  skipped i c there outside := by
    rw [← Nat.zero_add i] at outside
    exact isGap_iff.mp (covered.skipped there outside)
  parted := covered.parted

section Stops

variable {chars : List Char} {illegal : Illegal}

theorem scan_of_isFirst (first : illegal.IsFirst Passes chars) :
    scan 0 chars = ⟨(scan 0 (chars.take illegal.position)).lexemes, some illegal⟩ := by
  obtain ⟨front, back, rfl, place, known⟩ := first.exists_append
  rw [scan_append back first.refused 0 known, Nat.zero_add, place, List.take_left, ← place]

theorem stopped_eq_some_iff : (scan 0 chars).stopped = some illegal ↔
    illegal.IsFirst Passes chars := by
  constructor
  · intro stopped
    rcases all_or_exists_isFirst Passes chars with all | ⟨found, first⟩
    · rw [stopped_eq_none_of_passes all] at stopped
      cases stopped
    · rw [scan_of_isFirst first] at stopped
      cases stopped
      exact first
  · intro first
    rw [scan_of_isFirst first]

theorem stopped_eq_none_iff_passes : (scan 0 chars).stopped = none ↔ ∀ c ∈ chars, Passes c := by
  constructor
  · intro whole
    rcases all_or_exists_isFirst Passes chars with all | ⟨found, first⟩
    · exact all
    · rw [stopped_eq_some_iff.mpr first] at whole
      cases whole
  · exact stopped_eq_none_of_passes

theorem scan_take (first : illegal.IsFirst Passes chars) :
    scan 0 (chars.take illegal.position) = ⟨(scan 0 chars).lexemes, none⟩ := by
  obtain ⟨front, back, rfl, place, known⟩ := first.exists_append
  have whole : (scan 0 front).stopped = none := stopped_eq_none_of_passes known
  rw [scan_append back first.refused 0 known, place, List.take_left, ← whole]

end Stops

def Known (c : Char) : Prop := Text.isBlank c ∨ Token.InAlphabet c

theorem known_iff_solid {chars : List Char} :
    (∀ c ∈ chars, Known c) ↔ ∀ c ∈ Text.solid chars, Token.InAlphabet c := by
  simp [Text.solid, Known, or_iff_not_imp_left]

theorem tokenize_of_inAlphabet {text : String}
    (known : ∀ c ∈ Text.solid text.toList, Token.InAlphabet c) :
    tokenize text = .ok (scan 0 (Text.solid text.toList)).lexemes := by
  have whole : (scan 0 (Text.solid text.toList)).stopped = none :=
    stopped_eq_none_of_passes fun c member => .inr (known c member)
  simp only [tokenize, whole]

theorem lexing_keeps_the_text (text : String) :
    ((∀ c ∈ text.toList, Known c) →
      ∃ lexemes, tokenize text = .ok lexemes ∧
        lexemes.flatMap (·.token.text.toList) = Text.solid text.toList ∧
        (∀ front l back, lexemes = front ++ l :: back →
          l.index = (front.map (·.token.text.length)).sum) ∧
        lexemes.IsChain fun a b => ¬(a.token.isWord ∧ b.token.isWord)) ∧
    ((scanText text).stopped = none ↔ ∀ c ∈ text.toList, Passes c) ∧
    ((scanText text).stopped = none → Partitions (scanText text).lexemes text.toList) ∧
    ∀ illegal,
      ((scanText text).stopped = some illegal ↔ illegal.IsFirst Passes text.toList) ∧
      ((scanText text).stopped = some illegal →
        scan 0 (text.toList.take illegal.position) = ⟨(scanText text).lexemes, none⟩ ∧
        Partitions (scanText text).lexemes (text.toList.take illegal.position)) := by
  refine ⟨fun known => ?_, stopped_eq_none_iff_passes, fun whole => (covers_scan whole).partitions,
    fun illegal => ⟨stopped_eq_some_iff, fun stopped => ?_⟩⟩
  · have within := known_iff_solid.mp known
    have found := tokenize_of_inAlphabet within
    have cut := tokenize_iff_cut.mp ⟨_, found, rfl⟩
    have solid : ∀ c ∈ Text.solid text.toList, isGap c = false :=
      fun c member => isGap_eq_false_of_mem_solid member
    have whole : (scan 0 (Text.solid text.toList)).stopped = none :=
      (stopped_eq_none_iff solid).mpr within
    have spelled := cut.spelled
    rw [List.flatMap_map] at spelled
    refine ⟨_, found, spelled, fun front l back split => ?_, (List.isChain_map _).mp cut.apart⟩
    rw [(covers_scan whole).index_eq_sum solid split, Nat.zero_add]
  · have before := scan_take (stopped_eq_some_iff.mp stopped)
    have covered := covers_scan (congrArg Scan.stopped before)
    rw [before] at covered
    exact ⟨before, covered.partitions⟩

theorem lexing_keeps_the_text_around_a_gap :
    (∃ lexemes, tokenize "x y>0" = .ok lexemes ∧
      lexemes.flatMap (·.token.text.toList) = Text.solid "x y>0".toList) ∧
    Partitions (scanText "x y>0").lexemes "x y>0".toList ∧
    scan 0 ("x y>0@".toList.take 5) = ⟨(scanText "x y>0@").lexemes, none⟩ := by
  have known : ∀ c ∈ "x y>0".toList, Known c := by
    simp [Known, Text.isBlank, Token.InAlphabet]
  have whole : (scanText "x y>0").stopped = none := by cbv
  have stopped : (scanText "x y>0@").stopped = some ⟨'@', 5⟩ := by cbv
  obtain ⟨lexemes, found, spelled, _⟩ := (lexing_keeps_the_text "x y>0").1 known
  obtain ⟨_, _, partitions, _⟩ := lexing_keeps_the_text "x y>0"
  obtain ⟨_, _, _, cutOff⟩ := lexing_keeps_the_text "x y>0@"
  exact ⟨⟨lexemes, found, spelled⟩, partitions whole, ((cutOff _).2 stopped).1⟩

end Lexer

end TruthTables

import TruthTables.Text.Blank
import TruthTables.Token.Basic

namespace TruthTables

structure Illegal where
  char : Char
  position : Nat
  deriving DecidableEq, Repr

structure Scan where
  lexemes : List Lexeme
  stopped : Option Illegal
  deriving DecidableEq, Repr

namespace Scan

def done : Scan := ⟨[], none⟩

def stop (char : Char) (position : Nat) : Scan := ⟨[], some ⟨char, position⟩⟩

def cons (lexeme : Lexeme) (s : Scan) : Scan := { s with lexemes := lexeme :: s.lexemes }

end Scan

namespace Lexer

def isGap (c : Char) : Bool := c = ' ' || c = '\t' || c = '\r' || c = '\n'

def scan (position : Nat) : List Char → Scan
  | [] => .done
  | c :: rest =>
    if isGap c then scan (position + 1) rest
    else match Token.ofGlyph? c with
      | some token => (scan (position + 1) rest).cons ⟨token, position⟩
      | none =>
        if c.isAlphanum then
          let tail := rest.takeWhile Char.isAlphanum
          (scan (position + 1 + tail.length) (rest.dropWhile Char.isAlphanum)).cons
            ⟨.word (String.ofList (c :: tail)), position⟩
        else .stop c position
termination_by chars => chars.length
decreasing_by
  all_goals simp only [List.length_cons]
  · omega
  · omega
  · exact Nat.lt_succ_of_le (List.dropWhile_sublist _).length_le

def scanText (text : String) : Scan := scan 0 text.toList

def solidPositions (text : List Char) : List Nat :=
  (text.zipIdx.filter fun (c, _) => !Text.isBlank c).map (·.2)

-- The lexemes of a text whose blanks do not count at all, so that they do not even end a word. The
-- places of lexemes leave the blanks out; the place of an illegal character is that in the text as
-- given.
def tokenize (text : String) : Except Illegal (List Lexeme) :=
  let chars := text.toList
  let found := scan 0 (Text.solid chars)
  match found.stopped with
  | none => .ok found.lexemes
  | some illegal =>
    .error { illegal with
      position := (solidPositions chars)[illegal.position]?.getD illegal.position }

end Lexer

end TruthTables

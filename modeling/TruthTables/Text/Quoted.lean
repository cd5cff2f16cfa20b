import TruthTables.Text.Printable

namespace TruthTables.Text

def singleMark : Char := '\x27'

def doubleMark : Char := '"'

def mark (text : List Char) : Char :=
  if text.contains singleMark && !text.contains doubleMark then doubleMark else singleMark

def hex (width n : Nat) : List Char :=
  let digits := Nat.toDigits 16 n
  List.replicate (width - digits.length) '0' ++ digits

-- One character between two marks: the mark and the backslash are written after a backslash, the
-- common line controls by their letter, and an unprintable character by its code point in two, four
-- or eight digits.
def escape (mark c : Char) : List Char :=
  if c = mark || c = '\\' then ['\\', c]
  else if c = '\n' then ['\\', 'n']
  else if c = '\r' then ['\\', 'r']
  else if c = '\t' then ['\\', 't']
  else if isPrintable c then [c]
  else if c.toNat < 0x100 then '\\' :: 'x' :: hex 2 c.toNat
  else if c.toNat < 0x10000 then '\\' :: 'u' :: hex 4 c.toNat
  else '\\' :: 'U' :: hex 8 c.toNat

def quote (text : String) : String :=
  let chars := text.toList
  let mark := mark chars
  String.ofList (mark :: chars.flatMap (escape mark) ++ [mark])

def bracketed (opening closing : String) (items : List String) : String :=
  opening ++ ", ".intercalate items ++ closing

def quoteList (texts : List String) : String :=
  bracketed "[" "]" (texts.map quote)

end TruthTables.Text

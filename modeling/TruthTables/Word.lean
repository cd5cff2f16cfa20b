import TruthTables.Expr.Basic
import TruthTables.Numeral

namespace TruthTables

inductive WordError where
  -- Holds the shortest part of the word that shows the fault.
  | malformed (shown : String)
  | reserved (name : String)
  deriving DecidableEq, Repr

namespace Word

def resultTitle : String := "result"

def weightTitle : String := "weight"

def isReserved (name : String) : Bool := name == resultTitle || name == weightTitle

def read (word : String) : Except WordError Expr :=
  let chars := word.toList
  let letters := chars.takeWhile Char.isAlpha
  let afterLetters := chars.dropWhile Char.isAlpha
  let digits := afterLetters.takeWhile Char.isDigit
  match afterLetters.dropWhile Char.isDigit with
  | offending :: _ => .error (.malformed (String.ofList (letters ++ digits ++ [offending])))
  | [] =>
    if letters.isEmpty then
      match digits with
      | ['0'] => .ok (.const 0)
      | ['1'] => .ok (.const 1)
      | _ => .error (.malformed word)
    else if isReserved word then .error (.reserved word)
    else .ok (.atom word)

def letters (name : String) : String :=
  String.ofList (name.toList.reverse.dropWhile Char.isDigit).reverse

def decimal (digits : List Char) : Nat :=
  digits.foldl (fun value digit => 10 * value + (digit.toNat - '0'.toNat)) 0

def suffix? (name : String) : Except NumeralError (Option Nat) :=
  match name.toList.reverse.takeWhile Char.isDigit with
  | [] => .ok none
  | digits =>
    if mostDigits < digits.length then .error (.tooLongToRead digits.length)
    else .ok (some (decimal digits.reverse))

end Word

end TruthTables

namespace TruthTables

def mostDigits : Nat := 4300

inductive NumeralError where
  | tooLongToWrite
  | tooLongToRead (digits : Nat)
  deriving DecidableEq, Repr

def NumeralError.message (error : NumeralError) : String :=
  let length := match error with
    | tooLongToWrite => ""
    | tooLongToRead digits => ": value has " ++ toString digits ++ " digits"
  "Exceeds the limit (" ++ toString mostDigits ++ " digits) for integer string conversion" ++ length
    ++ "; use sys.set_int_max_str_digits() to increase the limit"

-- The number in decimal digits; the sign of a negative one does not count as a digit.
def numeral (number : Int) : Except NumeralError String :=
  if mostDigits < (toString number.natAbs).length then .error .tooLongToWrite
  else .ok (toString number)

theorem eq_of_numeral {number : Int} {text : String} (written : numeral number = .ok text) :
    text = toString number := by
  unfold numeral at written
  split at written
  · cases written
  · exact (Except.ok.inj written).symm

end TruthTables

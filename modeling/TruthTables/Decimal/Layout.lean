import TruthTables.Decimal.Shortest

namespace TruthTables.Decimal

def Scaled.normal (s : Scaled) : List Char × Int :=
  let digits := Nat.toDigits 10 s.digits
  ((digits.reverse.dropWhile (· == '0')).reverse, digits.length + s.exponent)

def zeros (count : Int) : List Char := List.replicate count.toNat '0'

def positional (digits : List Char) (whole : Int) : List Char :=
  if whole ≤ 0 then '0' :: '.' :: zeros (-whole) ++ digits
  else
    let fraction := digits.drop whole.toNat
    digits.take whole.toNat ++ zeros (whole - digits.length) ++ '.'
      :: if fraction.isEmpty then ['0'] else fraction

def scientific (digits : List Char) (whole : Int) : List Char :=
  let power := whole - 1
  let magnitude := Nat.toDigits 10 power.natAbs
  let fraction := digits.drop 1
  digits.take 1 ++ (if fraction.isEmpty then [] else '.' :: fraction)
    ++ 'e' :: (if power < 0 then '-' else '+') :: zeros (2 - magnitude.length) ++ magnitude

def Scaled.layout (s : Scaled) : List Char :=
  let (digits, whole) := s.normal
  if whole ≤ -4 || 16 < whole then scientific digits whole else positional digits whole

def Binary.ofFields (biased fraction : Nat) : Binary :=
  if biased = 0 then ⟨fraction, -1074, false⟩
  else ⟨Nat.pow 2 52 + fraction, biased - 1075, fraction == 0 && biased != 1⟩

def text (x : Float) : String :=
  let bits := x.toBits.toNat
  let biased := bits / Nat.pow 2 52 % Nat.pow 2 11
  let fraction := bits % Nat.pow 2 52
  let magnitude :=
    if biased = 2047 then (if fraction = 0 then "inf" else "nan").toList
    else if biased = 0 && fraction = 0 then "0.0".toList
    else (Binary.ofFields biased fraction).shortest.layout
  let negative := Nat.pow 2 63 ≤ bits && !x.isNaN
  String.ofList (if negative then '-' :: magnitude else magnitude)

end TruthTables.Decimal

namespace TruthTables.Decimal

-- A positive number `mantissa * 2 ^ exponent`. Where `narrow` is set its lower neighbour is half as
-- far away as its upper one, which is so at a power of two.
structure Binary where
  mantissa : Nat
  exponent : Int
  narrow : Bool

structure Scaled where
  digits : Nat
  exponent : Int
  deriving DecidableEq, Repr

-- Four times the mantissa: on this scale the ends of the rounding interval are natural numbers too.
def Binary.centre (b : Binary) : Nat := 4 * b.mantissa

def Binary.lower (b : Binary) : Nat := b.centre - if b.narrow then 1 else 2

def Binary.upper (b : Binary) : Nat := b.centre + 2

def Binary.factors (b : Binary) (place : Int) : Nat × Nat :=
  let binary := b.exponent - 2
  (Nat.pow 2 binary.toNat * Nat.pow 10 (-place).toNat,
    Nat.pow 2 (-binary).toNat * Nat.pow 10 place.toNat)

def Binary.reads (b : Binary) (place : Int) (c : Nat) : Bool :=
  let (forBinary, forDecimal) := b.factors place
  let point := c * forDecimal
  let low := b.lower * forBinary
  let high := b.upper * forBinary
  if b.mantissa % 2 = 0 then low ≤ point && point ≤ high else low < point && point < high

def Binary.magnitude (b : Binary) : Int :=
  let (forBinary, forDecimal) := b.factors (-400)
  (Nat.toDigits 10 (b.centre * forBinary / forDecimal)).length - 400

-- The point of the grid `10 ^ place` that reads back, if there is one: of the number's two
-- neighbours on the grid the nearer one, and the even one of two equally near.
def Binary.onGrid (b : Binary) (place : Int) : Option Nat :=
  let (forBinary, forDecimal) := b.factors place
  let value := b.centre * forBinary
  let below := value / forDecimal
  let above := below + 1
  let toBelow := value - below * forDecimal
  let toAbove := above * forDecimal - value
  match b.reads place below, b.reads place above with
  | false, false => none
  | true, false => some below
  | false, true => some above
  | true, true =>
    if toBelow < toAbove then some below
    else if toAbove < toBelow then some above
    else if below % 2 = 0 then some below else some above

def Binary.shortest (b : Binary) : Scaled :=
  let found := (List.range 17).findSome? fun (fewer : Nat) =>
    let place := b.magnitude - (fewer + 1 : Nat)
    (b.onGrid place).map fun digits => ⟨digits, place⟩
  found.getD ⟨0, 0⟩

end TruthTables.Decimal

/-!
# Shortest decimals

The shortest decimal of a binary floating-point number has the fewest digits that still read back
as that number, and is the nearest one with so few digits. Everything is computed in whole
numbers: a decimal reads back if it lies between the midpoints to the neighbouring numbers, the
midpoints included when the significand is even.
-/

namespace YangToProto

/-- The number `digits * 10 ^ exponent`, negated if `negative`. -/
structure Decimal where
  negative : Bool
  digits : Nat
  exponent : Int
deriving DecidableEq

/-- The positive number `significand * 2 ^ exponent`. The number below it is only half as far
away as the one above it if `nearBelow`. -/
structure Binary where
  significand : Nat
  exponent : Int
  nearBelow : Bool
deriving DecidableEq

namespace Binary

/-- A power as a factor of the numerator: one if the exponent is negative. -/
def numeratorPower (base : Nat) (exponent : Int) : Nat := base.pow exponent.toNat

/-- A power as a factor of the denominator: one if the exponent is positive. -/
def denominatorPower (base : Nat) (exponent : Int) : Nat := base.pow (-exponent).toNat

/-- The factor by which a number of units of `10 ^ grid` compares with quarters of
`2 ^ exponent`. -/
def gridScale (x : Binary) (grid : Int) : Nat :=
  numeratorPower 10 grid * denominatorPower 2 (x.exponent - 2)

/-- The factor by which quarters of `2 ^ exponent` compare with units of `10 ^ grid`. -/
def quarterScale (x : Binary) (grid : Int) : Nat :=
  denominatorPower 10 grid * numeratorPower 2 (x.exponent - 2)

def readsBack (x : Binary) (grid : Int) (digits : Nat) : Bool :=
  let low := (4 * x.significand - if x.nearBelow then 1 else 2) * x.quarterScale grid
  let high := (4 * x.significand + 2) * x.quarterScale grid
  let value := digits * x.gridScale grid
  if x.significand % 2 = 0 then low ≤ value && value ≤ high else low < value && value < high

/-- The decimal on a grid that reads back and is nearest, if there is one. It is one of the two
neighbours of the number on the grid; of two equally near ones the even one counts. -/
def onGrid? (x : Binary) (grid : Int) : Option Nat :=
  let exact := 4 * x.significand * x.quarterScale grid
  let below := exact / x.gridScale grid
  let above := below + 1
  match x.readsBack grid below, x.readsBack grid above with
  | false, false => none
  | true, false => some below
  | false, true => some above
  | true, true =>
    match compare (exact - below * x.gridScale grid) (above * x.gridScale grid - exact) with
    | .lt => some below
    | .gt => some above
    | .eq => some (if below % 2 = 0 then below else above)

def magnitude (x : Binary) : Int :=
  let bits : Int := Nat.log2 x.significand + x.exponent
  let start := bits * 30103 / 100000
  let isAbove (power : Int) : Bool :=
    4 * x.significand * x.quarterScale power < x.gridScale power
  if isAbove start then start else if isAbove (start + 1) then start + 1 else start + 2

/-- The digits without zeros at the end, each of which raises the exponent by one. At most
`count` of them are removed. -/
def trim (digits : Nat) (exponent : Int) : Nat → Nat × Int
  | 0 => (digits, exponent)
  | count + 1 =>
    if digits % 10 = 0 ∧ digits ≠ 0 then trim (digits / 10) (exponent + 1) count
    else (digits, exponent)

/-- The digits and exponent of the shortest decimal; 17 digits always suffice. -/
def shortest (x : Binary) : Nat × Int :=
  let found := (List.range' 1 17).findSome? fun (count : Nat) =>
    (x.onGrid? (x.magnitude - count)).map fun digits => (digits, x.magnitude - count)
  match found with
  | some (digits, exponent) => trim digits exponent 17
  | none => (0, 0)

end Binary

namespace Decimal

def ofBits (bits : UInt64) : Decimal :=
  let negative := bits >>> 63 == 1
  let field := ((bits >>> 52) &&& 0x7ff).toNat
  let fraction := (bits &&& 0xfffffffffffff).toNat
  if field = 0 ∧ fraction = 0 then ⟨negative, 0, 0⟩
  else
    let number : Binary :=
      if field = 0 then ⟨fraction, -1074, false⟩
      else ⟨fraction + 0x10000000000000, (field : Int) - 1075, fraction = 0 ∧ 1 < field⟩
    let (digits, exponent) := number.shortest
    ⟨negative, digits, exponent⟩

def digitText (x : Decimal) : List Char := (toString x.digits).toList

/-- The position of the point, counted from in front of the first digit. -/
def pointPosition (x : Decimal) : Int := x.digitText.length + x.exponent

/-- The digits in front of the point and those behind it, without an exponent. -/
def positional (x : Decimal) : List Char × List Char :=
  let digits := x.digitText
  if 0 ≤ x.exponent then (digits ++ List.replicate x.exponent.toNat '0', [])
  else if 0 < x.pointPosition then digits.splitAt x.pointPosition.toNat
  else (['0'], List.replicate (-x.pointPosition).toNat '0' ++ digits)

def sign (x : Decimal) : String := if x.negative then "-" else ""

/-- The number with a point and at least one digit behind it. Below `10 ^ (-5)` and from
`10 ^ 16` on it has an exponent with its sign. -/
def pointed (x : Decimal) : String :=
  let position := x.pointPosition
  if x.digits = 0 ∨ (-5 < position ∧ position ≤ 16) then
    let (front, back) := x.positional
    x.sign ++ String.ofList front ++ "." ++ String.ofList (if back.isEmpty then ['0'] else back)
  else
    let point := match x.digitText with
      | [] => []
      | [digit] => [digit]
      | digit :: rest => digit :: '.' :: rest
    let power := position - 1
    let sign := if power < 0 then "-" else "+"
    x.sign ++ String.ofList point ++ "e" ++ sign ++ toString power.natAbs

/-- The number without an exponent, and without a point if it is whole. -/
def plain (x : Decimal) : String :=
  let (front, back) := x.positional
  x.sign ++ String.ofList front ++ if back.isEmpty then "" else "." ++ String.ofList back

end Decimal

end YangToProto

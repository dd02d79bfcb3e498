import YangToProto.Decimal.Shortest
import YangToProto.Text.Digits

/-!
# Reading decimals

A decimal is read from a text as it stands. The double nearest to it is found in whole numbers:
the quotient with 53 bits is rounded by what remains, and of two equally near doubles the one
with an even significand counts.
-/

namespace YangToProto.Decimal

/-- The exponent at the end of a number; zero if the text is empty. -/
def exponent? (text : List Char) : Option Int :=
  match text with
  | [] => some 0
  | mark :: rest =>
    if mark = 'e' ∨ mark = 'E' then
      match rest with
      | '-' :: digits => (Digits.number? 10 digits).map fun n => -(n : Int)
      | '+' :: digits => (Digits.number? 10 digits).map Int.ofNat
      | digits => (Digits.number? 10 digits).map Int.ofNat
    else none

/-- A number without a sign: digits with a point before, between or behind them, and perhaps an
exponent. -/
def readUnsigned? (negative : Bool) (text : List Char) : Option Decimal := do
  let whole := text.takeWhile Char.isDigit
  let behind := text.dropWhile Char.isDigit
  let (fraction, rest) := match behind with
    | '.' :: rest => (rest.takeWhile Char.isDigit, rest.dropWhile Char.isDigit)
    | _ => ([], behind)
  let exponent ← exponent? rest
  let digits ← Digits.number? 10 (whole ++ fraction)
  return ⟨negative, digits, exponent - fraction.length⟩

def read? (text : List Char) : Option Decimal :=
  match text with
  | '-' :: rest => readUnsigned? true rest
  | '+' :: rest => readUnsigned? false rest
  | _ => readUnsigned? false text

/-- The bits in which doubles with neighbouring exponents differ. -/
def exponentUnit : Nat := 0x10000000000000

def infinityBits : Nat := 2047 * exponentUnit

def signBit : Nat := 0x8000000000000000

/-- A quotient rounded to the nearest whole number, of two equally near ones to the even one. -/
def roundQuotient (numerator denominator : Nat) : Nat :=
  let quotient := numerator / denominator
  let remainder := numerator % denominator
  match compare (2 * remainder) denominator with
  | .lt => quotient
  | .gt => quotient + 1
  | .eq => if quotient % 2 = 0 then quotient else quotient + 1

/-- The bits of the double nearest to a positive quotient. The significand is counted in units of
`2 ^ unit`; one that rounds up to the next power of two moves into the exponent by itself. -/
def quotientBits (numerator denominator : Nat) : Nat :=
  let scaledUp (unit : Int) : Nat := numerator * Binary.denominatorPower 2 unit
  let scaledDown (unit : Int) : Nat := denominator * Binary.numeratorPower 2 unit
  let least : Int := -1074
  let guess : Int := (Nat.log2 numerator : Int) - Nat.log2 denominator - 53
  let unit := max guess least
  let unit := if scaledUp unit / scaledDown unit < 2 * exponentUnit then unit else unit + 1
  let significand := roundQuotient (scaledUp unit) (scaledDown unit)
  min infinityBits ((unit - least).toNat * exponentUnit + significand)

/-- The bits of the double nearest to a number without its sign. Numbers outside the range of
doubles are not computed. -/
def magnitudeBits (x : Decimal) : Nat :=
  if x.digits = 0 ∨ x.pointPosition < -330 then 0
  else if 310 < x.pointPosition then infinityBits
  else
    quotientBits (x.digits * Binary.numeratorPower 10 x.exponent)
      (Binary.denominatorPower 10 x.exponent)

def toFloat (x : Decimal) : Float :=
  Float.ofBits (UInt64.ofNat (x.magnitudeBits + if x.negative then signBit else 0))

end YangToProto.Decimal

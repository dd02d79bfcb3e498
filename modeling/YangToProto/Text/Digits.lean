/-!
# Digits

Numbers written with the digits of a base up to sixteen.
-/

namespace YangToProto.Digits

def value? (c : Char) : Option Nat :=
  if '0' ≤ c ∧ c ≤ '9' then some (c.toNat - 48)
  else if 'a' ≤ c ∧ c ≤ 'f' then some (c.toNat - 87)
  else if 'A' ≤ c ∧ c ≤ 'F' then some (c.toNat - 55)
  else none

def isHex (c : Char) : Bool := (value? c).isSome

def append? (base number : Nat) (c : Char) : Option Nat := do
  let digit ← value? c
  if digit < base then some (number * base + digit) else none

/-- The number that some digits of a base stand for. There must be a digit. -/
def number? (base : Nat) (digits : List Char) : Option Nat :=
  if digits.isEmpty then none else digits.foldlM (append? base) 0

def fitsWord (n : Int) : Bool := Int64.minValue.toInt ≤ n && n ≤ Int64.maxValue.toInt

/-- The whole number of 64 bits that some digits of a base stand for, which may have a sign. -/
def signed? (base : Nat) (text : List Char) : Option Int := do
  let (negative, digits) := match text with
    | '-' :: rest => (true, rest)
    | '+' :: rest => (false, rest)
    | _ => (false, text)
  let n ← number? base digits
  let n : Int := if negative then -n else n
  if fitsWord n then some n else none

end YangToProto.Digits

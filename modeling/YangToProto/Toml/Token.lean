import YangToProto.Decimal.Reading
import YangToProto.Toml.Value

/-!
# Words that are values

Numbers, truth values and the names of infinity and not-a-number are words without quotes. A
number may have underscores between two digits, and only a lone zero may start with a zero.
-/

namespace YangToProto.Toml

def isWordChar (c : Char) : Bool :=
  c.isAlphanum || c == '_' || c == '+' || c == '-' || c == '.'

/-- The digits of a group without the underscores; each of these must stand between two digits.
`inside` says that a digit was in front. -/
def group? (isDigit : Char → Bool) (inside : Bool) : List Char → Option (List Char)
  | [] => if inside then some [] else none
  | c :: rest =>
    if isDigit c then (group? isDigit true rest).map (c :: ·)
    else if c = '_' ∧ inside then
      match rest with
      | [] => none
      | d :: _ => if isDigit d then group? isDigit false rest else none
    else none

def isDigitOf (base : Nat) (c : Char) : Bool := (Digits.append? base 0 c).isSome

def based? (base : Nat) (text : List Char) : Option Toml := do
  let n ← Digits.number? base (← group? (isDigitOf base) false text)
  if Digits.fitsWord n then some (integer n) else none

def whole? (text : List Char) : Option (List Char) := do
  let digits ← group? Char.isDigit false text
  match digits with
  | '0' :: _ :: _ => none
  | _ => some digits

def fraction? (text : List Char) : Option (List Char) :=
  match text with
  | [] => some []
  | '.' :: digits => (group? Char.isDigit false digits).map ('.' :: ·)
  | _ => none

def exponent? (text : List Char) : Option (List Char) :=
  match text with
  | [] => some []
  | mark :: '+' :: digits => (group? Char.isDigit false digits).map (mark :: '+' :: ·)
  | mark :: '-' :: digits => (group? Char.isDigit false digits).map (mark :: '-' :: ·)
  | mark :: digits => (group? Char.isDigit false digits).map (mark :: ·)

def startsExponent (c : Char) : Bool := c == 'e' || c == 'E'

/-- A floating-point number, which must not round to positive infinity. -/
def float? (text : List Char) : Option Toml := do
  let x := (← Decimal.read? text).toFloat
  if x.isInf && 0.0 < x then none else some (floating x)

def number? (negative : Bool) (text : List Char) : Option Toml := do
  let mantissa := text.takeWhile (!startsExponent ·)
  let digits ← whole? (mantissa.takeWhile (· != '.'))
  let fraction ← fraction? (mantissa.dropWhile (· != '.'))
  let exponent ← exponent? (text.dropWhile (!startsExponent ·))
  if fraction.isEmpty && exponent.isEmpty then
    let n ← Digits.number? 10 digits
    let n : Int := if negative then -n else n
    if Digits.fitsWord n then some (integer n) else none
  else float? ((if negative then ['-'] else []) ++ digits ++ fraction ++ exponent)

def signed? (negative : Bool) (text : List Char) : Option Toml :=
  if text = ['i', 'n', 'f'] then some (floating (if negative then -(1.0 / 0.0) else 1.0 / 0.0))
  else if text = ['n', 'a', 'n'] then some (floating (0.0 / 0.0))
  else number? negative text

def ofWord? (text : List Char) : Option Toml :=
  match text with
  | ['t', 'r', 'u', 'e'] => some (flag true)
  | ['f', 'a', 'l', 's', 'e'] => some (flag false)
  | '0' :: 'x' :: digits => based? 16 digits
  | '0' :: 'o' :: digits => based? 8 digits
  | '0' :: 'b' :: digits => based? 2 digits
  | '+' :: rest => signed? false rest
  | '-' :: rest => signed? true rest
  | _ => signed? false text

end YangToProto.Toml

namespace YangToProto.TomlScan

def word : TomlScan Toml := fun text =>
  match Moment.read? text with
  | some (moment, rest) => .ok (.moment moment, rest)
  | none =>
    match Toml.ofWord? (text.takeWhile Toml.isWordChar) with
    | some value => .ok (value, text.dropWhile Toml.isWordChar)
    | none => .error .unexpected

end YangToProto.TomlScan

import YangToProto.Decimal.Reading
import YangToProto.Settings.Key

/-!
# Settings from the environment

A variable sets a value if its name starts with the prefix of the program. In the rest of the
name two underscores stand for a dot, and upper case does not count.
-/

namespace YangToProto

abbrev Environment := List (String × String)

namespace Environment

def start : List Char := "protogen__".toList

def dotted : List Char → List Char
  | '_' :: '_' :: rest => '.' :: dotted rest
  | c :: rest => c :: dotted rest
  | [] => []

def key? (name : String) : Option String :=
  let letters := name.toList.map lowerLetter
  if start.isPrefixOf letters then some (String.ofList (dotted (letters.drop start.length)))
  else none

/-- A floating-point number: a decimal, or the name of infinity or not-a-number. -/
def float? (text : List Char) : Option Float :=
  let (negative, word) := match text with
    | '-' :: rest => (true, rest)
    | '+' :: rest => (false, rest)
    | _ => (false, text)
  let word := String.ofList (word.map Char.toLower)
  if word == "inf" || word == "infinity" then some (if negative then -(1.0 / 0.0) else 1.0 / 0.0)
  else if word == "nan" then some (0.0 / 0.0)
  else (Decimal.read? text).map Decimal.toFloat

/-- The setting that the value of a variable gives: what it looks like. -/
def setting (text : String) : Setting :=
  let chars := text.toList
  match String.ofList (chars.map Char.toLower) with
  | "true" => .flag true
  | "false" => .flag false
  | _ =>
    match Digits.signed? 10 chars, float? chars with
    | some n, _ => .integer n
    | none, some x => .floating x
    | none, none => .text text

def settings (environment : Environment) : List (String × Setting) :=
  environment.filterMap fun (name, value) => (key? name).map fun key => (key, setting value)

end Environment

end YangToProto

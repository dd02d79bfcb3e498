import YangToProto.Decimal.Reading

/-!
# YAML values

A node of a YAML document is a scalar, a list or a map. What a scalar means follows from its text
if it is plain, and from its tag if it has one. A floating-point number keeps its text.
-/

namespace YangToProto

inductive Yaml where
  | nothing
  /-- A scalar whose text does not fit its tag, or an alias within what it stands for. -/
  | unreadable
  | flag (value : Bool)
  | integer (value : Int)
  | floating (text : String)
  | text (value : String)
  | list (items : List Yaml)
  | map (entries : List (Yaml × Yaml))

inductive YamlFault where
  /-- Something else should stand there. -/
  | unexpected
  /-- The text ends in the middle of something. -/
  | unfinished
  /-- Something stands too far to the left or right. -/
  | badIndentation
  /-- A tab stands where only spaces can stand. -/
  | tab
  /-- A comment follows something without a space. -/
  | commentTooClose
  /-- There is a colon where no key can be, or no colon where a key must be. -/
  | misplacedKey
  | badEscape
  | badDirective
  | badTag
  | unknownAnchor (name : String)
  | tooDeep
  | duplicateKey
  | manyDocuments
  /-- A map has a key that is no scalar, or nothing. -/
  | badKey
  /-- A floating-point number is infinite or no number. -/
  | badNumber
deriving DecidableEq, Repr

def YamlFault.message : YamlFault → String
  | unexpected => "did not find expected content"
  | unfinished => "found unexpected end of stream"
  | badIndentation => "invalid indentation"
  | tab => "tabs disallowed within this context"
  | commentTooClose => "comments must be separated from other tokens by whitespace"
  | misplacedKey => "mapping values are not allowed in this context"
  | badEscape => "found unknown escape"
  | badDirective => "found a bad directive"
  | badTag => "found a bad tag"
  | unknownAnchor name => s!"found unknown anchor {name}"
  | tooDeep => "recursion limit exceeded"
  | duplicateKey => "duplicated key in mapping"
  | manyDocuments => "found more than one document"
  | badKey => "a key is not a scalar"
  | badNumber => "a number cannot be read"

namespace Yaml

/-! ## Scalars -/

def specialNumbers : List String :=
  [".inf", ".Inf", ".INF", "+.inf", "+.Inf", "+.INF", "-.inf", "-.Inf", "-.INF", ".nan", ".NaN",
    ".NAN"]

def float? (text : List Char) : Option Float :=
  if text.any Char.isDigit then (Decimal.read? text).map Decimal.toFloat else none

def isFloat (text : String) : Bool :=
  specialNumbers.contains text || (float? text.toList).isSome

/-- A whole number with the mark of its base, or with a plus sign. -/
def markedInteger? (text : List Char) : Option Int :=
  match text with
  | '0' :: 'x' :: digits => Digits.signed? 16 digits
  | '0' :: 'o' :: digits => Digits.signed? 8 digits
  | '+' :: digits => Digits.signed? 10 digits
  | _ => none

/-- The value of a plain scalar, which is what its text looks like. -/
def ofPlain (text : String) : Yaml :=
  match markedInteger? text.toList with
  | some n => integer n
  | none =>
    match text with
    | "" => nothing
    | "~" => nothing
    | "null" => nothing
    | "true" => flag true
    | "false" => flag false
    | _ =>
      match Digits.signed? 10 text.toList with
      | some n => integer n
      | none => if isFloat text then floating text else .text text

/-- What the tags of the types that everybody knows start with. -/
def coreTag : String := "tag:yaml.org,2002:"

/-- The value of a plain scalar with the tag of a type. -/
def ofTyped (type text : String) : Yaml :=
  match type with
  | "bool" =>
    match text with
    | "true" => flag true
    | "false" => flag false
    | _ => unreadable
  | "int" => ((Digits.signed? 10 text.toList).map integer).getD unreadable
  | "float" => if isFloat text then floating text else unreadable
  | "null" => if text == "~" || text == "null" then nothing else unreadable
  | _ => .text text

/-- The value of a scalar. Its tag has two parts, and only a plain scalar looks at it. -/
def ofScalar (plain : Bool) (tag : Option (String × String)) (text : String) : Yaml :=
  if plain then
    match tag with
    | none => ofPlain text
    | some (start, type) => if start == coreTag then ofTyped type text else .text text
  else .text text

/-! ## Keys -/

def keyText? : Yaml → Option String
  | flag value => some (if value then "true" else "false")
  | integer value => some (toString value)
  | floating written => some written
  | text value => some value
  | _ => none

def sameKey : Yaml → Yaml → Bool
  | nothing, nothing => true
  | flag a, flag b => a == b
  | integer a, integer b => a == b
  | floating a, floating b => a == b
  | text a, text b => a == b
  | _, _ => false

def hasTwice : List (Yaml × Yaml) → Bool
  | [] => false
  | (key, _) :: rest => rest.any (fun (other, _) => sameKey key other) || hasTwice rest

/-- The entries of a map whose keys and values are given in turn. A key that cannot be read does not
count, so what is behind it takes its place; a key without a value does not count either. -/
def entriesOf : List Yaml → List (Yaml × Yaml)
  | unreadable :: rest => entriesOf rest
  | key :: value :: rest => (key, value) :: entriesOf rest
  | _ => []

end Yaml

end YangToProto

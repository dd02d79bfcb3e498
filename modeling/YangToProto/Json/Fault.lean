import YangToProto.Decimal.Shortest
import YangToProto.Json.Value
import YangToProto.Text.Quoted

/-!
# Faults of JSON texts

A text may end too early, be malformed, or be well-formed and not fit the structure that it is
read into. A fault of the last kind says what was found and what was expected.
-/

namespace YangToProto

inductive Unfinished where
  | list
  | object
  | string
  | value
deriving DecidableEq, Repr

inductive Malformed where
  | expectedColon
  | expectedListCommaOrEnd
  | expectedObjectCommaOrEnd
  | expectedLiteral
  | expectedValue
  | invalidEscape
  | invalidNumber
  | numberOutOfRange
  | controlCharacter
  | keyNotString
  | loneSurrogate
  | trailingComma
  | trailingCharacters
  | unfinishedEscape
  | tooDeep
deriving DecidableEq, Repr

/-- A value as named in a fault. The contents of arrays and objects are not looked at. -/
inductive Found where
  | null
  | bool (value : Bool)
  | number (value : JsonNumber)
  | string (value : String)
  | sequence
  | map

inductive Misfit where
  | invalidType (found : Found) (expected : String)
  | invalidValue (found : Found) (expected : String)
  | invalidLength (length : Nat) (expected : String)
  | unknownVariant (variant : String) (known : List String)
  | missingField (field : String)
  | duplicateField (field : String)

inductive JsonFault where
  | unfinished (what : Unfinished)
  | malformed (what : Malformed)
  | misfit (what : Misfit)

namespace Unfinished

def message : Unfinished → String
  | list => "EOF while parsing a list"
  | object => "EOF while parsing an object"
  | string => "EOF while parsing a string"
  | value => "EOF while parsing a value"

end Unfinished

namespace Malformed

def message : Malformed → String
  | expectedColon => "expected `:`"
  | expectedListCommaOrEnd => "expected `,` or `]`"
  | expectedObjectCommaOrEnd => "expected `,` or `\x7d`"
  | expectedLiteral => "expected ident"
  | expectedValue => "expected value"
  | invalidEscape => "invalid escape"
  | invalidNumber => "invalid number"
  | numberOutOfRange => "number out of range"
  | controlCharacter => "control character (\\u0000-\\u001F) found while parsing a string"
  | keyNotString => "key must be a string"
  | loneSurrogate => "lone leading surrogate in hex escape"
  | trailingComma => "trailing comma"
  | trailingCharacters => "trailing characters"
  | unfinishedEscape => "unexpected end of hex escape"
  | tooDeep => "recursion limit exceeded"

end Malformed

namespace Found

def ofJson : Json → Found
  | .null => null
  | .bool value => bool value
  | .number value => number value
  | .string value => string value
  | .array _ => sequence
  | .object _ => map

def text : Found → String
  | null => "null"
  | bool value => s!"boolean `{value}`"
  | number (.integer value) => s!"integer `{value}`"
  | number (.floating value) => "floating point `" ++ (Decimal.ofBits value.toBits).pointed ++ "`"
  | string value => "string " ++ quote value
  | sequence => "sequence"
  | map => "map"

end Found

def ticked (name : String) : String := "`" ++ name ++ "`"

namespace Misfit

def message : Misfit → String
  | invalidType found expected => "invalid type: " ++ found.text ++ ", expected " ++ expected
  | invalidValue found expected => "invalid value: " ++ found.text ++ ", expected " ++ expected
  | invalidLength length expected => s!"invalid length {length}, expected {expected}"
  | unknownVariant variant known =>
    "unknown variant " ++ ticked variant ++ ", expected one of " ++
      String.intercalate ", " (known.map ticked)
  | missingField field => "missing field " ++ ticked field
  | duplicateField field => "duplicate field " ++ ticked field

end Misfit

namespace JsonFault

def message : JsonFault → String
  | unfinished what => what.message
  | malformed what => what.message
  | misfit what => what.message

end JsonFault

end YangToProto

import YangToProto.Decimal.Shortest
import YangToProto.Json.Value

/-!
# Printing JSON

A value is printed without blanks, or with each item on a line of its own behind two blanks per
level. Strings escape quotes, backslashes and control characters and nothing else.
-/

namespace YangToProto.Json

def hexDigit (n : Nat) : Char := Nat.digitChar (n % 16)

def escape (c : Char) : List Char :=
  if c = '"' then ['\\', '"']
  else if c = '\\' then ['\\', '\\']
  else if c = '\x08' then ['\\', 'b']
  else if c = '\x0c' then ['\\', 'f']
  else if c = '\n' then ['\\', 'n']
  else if c = '\x0d' then ['\\', 'r']
  else if c = '\t' then ['\\', 't']
  else if c.toNat < 0x20 then ['\\', 'u', '0', '0', hexDigit (c.toNat / 16), hexDigit c.toNat]
  else [c]

def printString (text : String) : String :=
  String.ofList ('"' :: text.toList.flatMap escape ++ ['"'])

/-- A number: whole ones as they are, others with a point or an exponent. -/
def printNumber : JsonNumber → String
  | .integer value => toString value
  | .floating value => (Decimal.ofBits value.toBits).pointed

mutual

def print : Json → String
  | null => "null"
  | bool value => if value then "true" else "false"
  | number value => printNumber value
  | string text => printString text
  | array items => "[" ++ String.intercalate "," (printItems items) ++ "]"
  | object members => "\x7b" ++ String.intercalate "," (printMembers members) ++ "\x7d"

def printItems : List Json → List String
  | [] => []
  | item :: rest => print item :: printItems rest

def printMembers : List (String × Json) → List String
  | [] => []
  | (name, value) :: rest => (printString name ++ ":" ++ print value) :: printMembers rest

end

def newLine (level : Nat) : String := "\n" ++ String.join (List.replicate level "  ")

/-- Items between brackets, each on a line of its own one level further in. -/
def enclose (opening closing : String) (level : Nat) (items : List String) : String :=
  if items.isEmpty then opening ++ closing
  else
    opening ++ newLine (level + 1) ++
      String.intercalate ("," ++ newLine (level + 1)) items ++ newLine level ++ closing

mutual

def pretty (level : Nat) : Json → String
  | null => "null"
  | bool value => if value then "true" else "false"
  | number value => printNumber value
  | string text => printString text
  | array items => enclose "[" "]" level (prettyItems (level + 1) items)
  | object members => enclose "\x7b" "\x7d" level (prettyMembers (level + 1) members)

def prettyItems (level : Nat) : List Json → List String
  | [] => []
  | item :: rest => pretty level item :: prettyItems level rest

def prettyMembers (level : Nat) : List (String × Json) → List String
  | [] => []
  | (name, value) :: rest =>
    (printString name ++ ": " ++ pretty level value) :: prettyMembers level rest

end

end YangToProto.Json

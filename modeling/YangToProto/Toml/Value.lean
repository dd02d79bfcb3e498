import YangToProto.Toml.Moment

/-!
# TOML values

A configuration file is a table of values. The entries of a table keep the order in which they
were met, and no two of them have one key.
-/

namespace YangToProto

inductive Toml where
  | text (value : String)
  | integer (value : Int)
  | floating (value : Float)
  | flag (value : Bool)
  | moment (value : Moment)
  | array (items : List Toml)
  | table (entries : List (String × Toml))

inductive TomlFault where
  /-- Something else should stand there. -/
  | unexpected
  /-- The text ends in the middle of something. -/
  | unfinished
  /-- A key that has a value, or a table that is complete, is given again. -/
  | duplicate (key : String)
  /-- A key leads into something that is no table. -/
  | noTable (key : String)
  /-- Arrays and inline tables stand too deep in each other, or a key has too many parts. -/
  | tooDeep
deriving DecidableEq, Repr

def TomlFault.message : TomlFault → String
  | unexpected => "invalid TOML"
  | unfinished => "TOML text ends too early"
  | duplicate key => s!"duplicate key {key}"
  | noTable key => s!"key {key} is not a table"
  | tooDeep => "TOML values are nested too deep"

/-- A reader takes what it reads from the front of a text. -/
abbrev TomlScan := StateT (List Char) (Except TomlFault)

namespace TomlScan

def peek : TomlScan (Option Char) := fun text => .ok (text.head?, text)

def advance : TomlScan Unit := fun text => .ok ((), text.tail)

def mark (expected : Char) : TomlScan Unit := fun text =>
  match text with
  | [] => .error .unfinished
  | c :: rest => if c = expected then .ok ((), rest) else .error .unexpected

def isBlank (c : Char) : Bool := c == ' ' || c == '\t'

def blanks : TomlScan Unit := fun text => .ok ((), text.dropWhile isBlank)

/-- Whether a character may stand in comments, and in texts unless it means something there. -/
def isPrintable (c : Char) : Bool := c == '\t' || (' ' ≤ c && c ≤ '~') || 0x80 ≤ c.toNat

def lineBreak : TomlScan Unit := fun text =>
  match text with
  | [] => .ok ((), [])
  | '\n' :: rest => .ok ((), rest)
  | '\x0d' :: '\n' :: rest => .ok ((), rest)
  | _ => .error .unexpected

def lineEnd : TomlScan Unit := do
  blanks
  if (← peek) == some '#' then modify (List.dropWhile isPrintable)
  lineBreak

/-- The text behind blanks, line breaks and comments. A comment ends with its line. -/
def dropLines (inComment : Bool) : List Char → Except TomlFault (List Char)
  | [] => if inComment then .error .unfinished else .ok []
  | '\n' :: rest => dropLines false rest
  | '\x0d' :: '\n' :: rest => dropLines false rest
  | c :: rest =>
    if inComment then
      if isPrintable c then dropLines true rest else .error .unexpected
    else if isBlank c then dropLines false rest
    else if c = '#' then dropLines true rest
    else .ok (c :: rest)

def lines : TomlScan Unit := fun text => (dropLines false text).map fun rest => ((), rest)

end TomlScan

end YangToProto

import YangToProto.Toml.Quoted
import YangToProto.Toml.Table
import YangToProto.Toml.Token

/-!
# TOML texts

A text is read line by line: headers open tables, and each key with its value goes into the table
of the last header. Loops are bounded by a number of rounds; the length of the text is always
enough, since each round takes a character.
-/

namespace YangToProto

namespace TomlScan

/-! ## Keys -/

def isKeyChar (c : Char) : Bool := c.isAlphanum || c == '_' || c == '-'

def keyPart : TomlScan String := do
  match ← peek with
  | none => throw .unfinished
  | some c =>
    if c = '"' ∨ c = '\x27' then
      advance
      lineText c
    else
      let part := (← get).takeWhile isKeyChar
      if part.isEmpty then throw .unexpected
      modify (List.dropWhile isKeyChar)
      return String.ofList part

/-- Takes the parts of a key with dots between them. Blanks may stand around each part. -/
def keyParts : Nat → TomlScan (List String)
  | 0 => throw .unfinished
  | rounds + 1 => do
    blanks
    let part ← keyPart
    blanks
    if (← peek) == some '.' then
      advance
      return part :: (← keyParts rounds)
    else return [part]

/-- The number of parts that a key cannot have, and of values that cannot stand in each other. -/
def limit : Nat := 80

def key (rounds : Nat) : TomlScan (List String) := do
  let parts ← keyParts rounds
  if limit ≤ parts.length then throw .tooDeep
  return parts

/-! ## Values -/

/-- Takes the items of an array up to its end. A comma may stand behind the last one. -/
def arrayItems {α : Type} (item : TomlScan α) : Nat → TomlScan (List α)
  | 0 => throw .unfinished
  | rounds + 1 => do
    lines
    if (← peek) == some ']' then
      advance
      return []
    let x ← item
    lines
    match ← peek with
    | some ',' =>
      advance
      return x :: (← arrayItems item rounds)
    | _ =>
      mark ']'
      return [x]

def keyValue {α : Type} (rounds : Nat) (item : TomlScan α) : TomlScan (List String × α) := do
  let path ← key rounds
  mark '='
  blanks
  return (path, ← item)

def inlineEntries (item : TomlScan Toml) (rounds : Nat) (entries : TomlEntries) :
    Nat → TomlScan TomlEntries
  | 0 => throw .unfinished
  | more + 1 => do
    let (path, value) ← keyValue rounds item
    let entries ← entries.addValue path value .header
    blanks
    match ← peek with
    | some ',' =>
      advance
      inlineEntries item rounds entries more
    | _ =>
      mark '\x7d'
      return entries

/-- Takes a value; so many arrays and inline tables may stand in each other. -/
def value (rounds : Nat) (depth : Nat) : TomlScan Toml := do
  match ← peek with
  | none => throw .unfinished
  | some '"' => return .text (← quoted '"')
  | some '\x27' => return .text (← quoted '\x27')
  | some '[' =>
    match depth with
    | 0 => throw .tooDeep
    | depth + 1 =>
      advance
      return .array (← arrayItems (value rounds depth) rounds)
  | some '\x7b' =>
    match depth with
    | 0 => throw .tooDeep
    | depth + 1 =>
      advance
      blanks
      if (← peek) == some '\x7d' then
        advance
        return .table []
      return .table (TomlItem.finishEntries (← inlineEntries (value rounds depth) rounds [] rounds))
  | some _ => word

/-! ## Lines -/

/-- Takes a header and gives the path of the table that it opens. -/
def header (rounds : Nat) (entries : TomlEntries) : TomlScan (List String × TomlEntries) := do
  mark '['
  if (← peek) == some '[' then
    advance
    let path ← key rounds
    mark ']'
    mark ']'
    return (path, ← entries.addOneOfTables path)
  else
    let path ← key rounds
    mark ']'
    return (path, ← entries.addTable path)

/-- Takes all lines. The path of the last header is given with what was read so far. -/
def document (rounds : Nat) (path : List String) (entries : TomlEntries) :
    Nat → TomlScan TomlEntries
  | 0 => throw .unfinished
  | more + 1 => do
    blanks
    match ← peek with
    | none => return entries
    | some '[' =>
      let (path, entries) ← header rounds entries
      lineEnd
      document rounds path entries more
    | some c =>
      if c = '#' ∨ c = '\n' ∨ c = '\x0d' then
        lineEnd
        document rounds path entries more
      else
        let (key, value) ← keyValue rounds (value rounds (limit - 1))
        let entries ← entries.addBelow path key value
        lineEnd
        document rounds path entries more

end TomlScan

/-- The outermost table of a text. A byte order mark at its start does not count. -/
def Toml.read (text : String) : Except TomlFault (List (String × Toml)) := do
  let chars := match text.toList with
    | '\ufeff' :: rest => rest
    | chars => chars
  let rounds := chars.length + 1
  let (entries, _) ← TomlScan.document rounds [] [] rounds chars
  return TomlItem.finishEntries entries

end YangToProto

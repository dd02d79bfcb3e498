import YangToProto.Yaml.Token

/-!
# Quoted scalars in YAML texts

In single quotes only a quote is written in another way: twice. In double quotes a backslash
starts an escape, and one at the end of a line joins the lines.
-/

namespace YangToProto.YamlScan

def escaped? (c : Char) : Option Char :=
  match c with
  | '0' => some '\x00'
  | 'a' => some '\x07'
  | 'b' => some '\x08'
  | 't' => some '\t'
  | '\t' => some '\t'
  | 'n' => some '\n'
  | 'v' => some '\x0b'
  | 'f' => some '\x0c'
  | 'r' => some '\x0d'
  | 'e' => some '\x1b'
  | ' ' => some ' '
  | '"' => some '"'
  | '/' => some '/'
  | '\\' => some '\\'
  | 'N' => some '\u0085'
  | '_' => some '\u00a0'
  | 'L' => some '\u2028'
  | 'P' => some '\u2029'
  | _ => none

/-- The number of digits that a letter announces behind a backslash. -/
def digitCount? (c : Char) : Option Nat :=
  match c with
  | 'x' => some 2
  | 'u' => some 4
  | 'U' => some 8
  | _ => none

def escape : YamlScan Char := do
  let c ← peekAt 1
  skip 2
  match escaped? c, digitCount? c with
  | some plain, _ => return plain
  | none, none => throw .badEscape
  | none, some count =>
    let digits := (← get).rest.take count
    match Digits.number? 16 digits with
    | none => throw .badEscape
    | some n =>
      if digits.length < count ∨ 0x10FFFF < n ∨ (0xD800 ≤ n ∧ n ≤ 0xDFFF) then throw .badEscape
      skip count
      return Char.ofNat n

/-- Takes the characters of a word in quotes, and tells whether a joined line ends it. -/
def quotedWord (quote : Char) : Nat → YamlScan (List Char × Bool)
  | 0 => return ([], false)
  | rounds + 1 => do
    let c ← peek
    if isBlankOrEnd c then return ([], false)
    else if c = quote then
      if quote = '\x27' ∧ (← peekAt 1) = quote then
        skip 2
        let (more, joined) ← quotedWord quote rounds
        return (quote :: more, joined)
      else return ([], false)
    else if c = '\\' ∧ quote = '"' then
      if isBreak (← peekAt 1) then
        skip 1
        skipBreak
        return ([], true)
      else
        let plain ← escape
        let (more, joined) ← quotedWord quote rounds
        return (plain :: more, joined)
    else
      skip 1
      let (more, joined) ← quotedWord quote rounds
      return (c :: more, joined)

/-- Takes the text up to the closing quote. Each word takes a round. -/
def quotedText (quote : Char) : Nat → YamlScan (List Char)
  | 0 => throw .unfinished
  | rounds + 1 => do
    let s ← get
    if s.rest.isEmpty then throw .unfinished
    if ← atDocumentMark then throw .unexpected
    if s.place.column < s.indent then throw .badIndentation
    let (word, joined) ← quotedWord quote s.rest.length
    if (← peek) == quote then return word
    else
      let between ← gap joined s.indent (throw .tab)
      return word ++ between ++ (← quotedText quote rounds)

def quoted : YamlScan YamlToken := do
  let start ← get
  let quote ← peek
  skip 1
  let text ← quotedText quote (start.rest.length + 1)
  skip 1
  discard lineSpace
  let c ← peek
  let outside ← inBlock
  let isKey := c = ':' ∧ (!outside ∨ (← get).place.line = start.place.line)
  if isEnd c ∨ isKey ∨ (!outside ∧ (c = ',' ∨ c = ']' ∨ c = '\x7d')) then
    return .scalar false (String.ofList text)
  else throw .unexpected

end YangToProto.YamlScan

import YangToProto.Yaml.Token

/-!
# Names in YAML texts

Anchors, tags and directives. A tag is a handle and a name, and what a handle stands for is told
by a directive. A percent sign in a tag starts a character that is given by its bytes.
-/

namespace YangToProto.YamlScan

def isTagText (c : Char) : Bool :=
  c.isAlphanum || "-#;/?:@&=+$,_.!~*()[]%".contains c || c == '\x27'

def isTagChar (c : Char) : Bool := isTagText c && !isFlow c && c != '!'

def isAnchorChar (c : Char) : Bool := !isBlankOrEnd c && !isFlow c && c != '\ufeff'

def byteCount? (byte : Nat) : Option Nat :=
  if byte < 0x80 then some 1
  else if byte < 0xC0 then none
  else if byte < 0xE0 then some 2
  else if byte < 0xF0 then some 3
  else if byte < 0xF8 then some 4
  else none

/-- Takes a byte that is written with a percent sign and two digits. -/
def byte : YamlScan Nat := do
  match (← get).rest with
  | '%' :: a :: b :: _ =>
    match Digits.number? 16 [a, b] with
    | some n =>
      skip 3
      return n
    | none => throw .badTag
  | _ => throw .badTag

/-- Takes so many more bytes of a character. The bytes are put together as they are. -/
def moreBytes (read : Nat) : Nat → YamlScan Nat
  | 0 => return read
  | count + 1 => do
    let next ← byte
    if next < 0x80 ∨ 0xBF < next then throw .badTag
    moreBytes (read * 256 + next) count

def bytesChar : YamlScan Char := do
  let first ← byte
  match byteCount? first with
  | none => throw .badTag
  | some count =>
    let n ← moreBytes first (count - 1)
    if n < 0xD800 ∨ (0xDFFF < n ∧ n < 0x110000) then return Char.ofNat n else throw .badTag

def tagChar : YamlScan Char := do
  let c ← peek
  if c = '%' then bytesChar
  else
    skip 1
    return c

def tagText (p : Char → Bool) : Nat → YamlScan (List Char)
  | 0 => return []
  | rounds + 1 => do
    if p (← peek) then
      let c ← tagChar
      return c :: (← tagText p rounds)
    else return []

/-- Takes a handle: a name between exclamation marks, of which the last may be missing. -/
def handle : YamlScan (List Char) := do
  if (← peek) != '!' then throw .badTag
  skip 1
  let name ← takeWhile isNameChar
  if (← peek) == '!' then
    skip 1
    return '!' :: name ++ ['!']
  else return '!' :: name

/-- Whether a handle has both exclamation marks. -/
def isWhole (handle : List Char) : Bool := 2 ≤ handle.length && handle.getLast? == some '!'

/-- Takes a tag. Without a handle that has both marks, it is a local one. -/
def tag : YamlScan YamlToken := do
  let rounds := (← get).rest.length
  if (← peekAt 1) == '<' then
    skip 2
    let name ← tagText isTagText rounds
    if (← peek) != '>' then throw .badTag
    skip 1
    return .tag "" (String.ofList name)
  else
    let start ← handle
    let name ← tagText isTagChar rounds
    if isWhole start then
      if name.isEmpty then throw .badTag
      return .tag (String.ofList start) (String.ofList name)
    else
      let name := start.tail ++ name
      return if name.isEmpty then .tag "" "!" else .tag "!" (String.ofList name)

def wholeTag : YamlScan YamlToken := do
  let found ← tag
  let c ← peek
  if isBlankOrEnd c then return found
  else if isFlow c ∧ !(← inBlock) then return found
  else throw .badTag

def anchorName : YamlScan String := do
  skip 1
  let name ← takeWhile isAnchorChar
  if name.isEmpty then throw .unexpected
  return String.ofList name

/-! ## Directives -/

def versionNumber : YamlScan Unit := do
  let digits ← takeWhile Char.isDigit
  if digits.isEmpty ∨ 9 < digits.length then throw .badDirective

def tagStart : YamlScan (List Char) := do
  let c ← peek
  if c != '!' && !isTagChar c then throw .badDirective
  let first ← tagChar
  return first :: (← tagText isTagText (← get).rest.length)

/-- Takes a directive. One that nobody knows does not count. -/
def directive : YamlScan YamlToken := do
  skip 1
  let name ← takeWhile isNameChar
  if name.isEmpty || !isBlankOrEnd (← peek) then throw .badDirective
  match String.ofList name with
  | "YAML" =>
    discard (takeWhile isBlank)
    versionNumber
    if (← peek) != '.' then throw .badDirective
    skip 1
    versionNumber
    return .version
  | "TAG" =>
    discard (takeWhile isBlank)
    let found ← handle
    if !isWhole found && found != ['!'] then throw .badDirective
    discard (takeWhile isBlank)
    let start ← tagStart
    if !isBlankOrEnd (← peek) then throw .badDirective
    return .tagDirective (String.ofList found) (String.ofList start)
  | _ =>
    skipLine
    return .tagDirective "" ""

def directiveLine : YamlScan YamlToken := do
  let found ← directive
  discard lineSpace
  if !isEnd (← peek) then throw .badDirective
  skipBreak
  return found

end YangToProto.YamlScan

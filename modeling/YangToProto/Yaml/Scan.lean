import YangToProto.Yaml.Literal
import YangToProto.Yaml.Plain
import YangToProto.Yaml.Quoted
import YangToProto.Yaml.Tag

/-!
# The tokens of a YAML text

Each character that a token starts with tells what the token is. The tokens that nobody writes
are added where a line leaves a block, or where a colon shows that a key is in front of it.
-/

namespace YangToProto

namespace YamlScan

def possibleKey (token : YamlScan YamlToken) : YamlScan Unit := do
  saveKey
  allowKey false
  emit (← token)

/-- The number of brackets that can be open. -/
def limit : Nat := 255

def openBracket (isList : Bool) : YamlScan Unit := do
  saveKey
  rollOne
  let s ← get
  if limit ≤ s.brackets.length then throw .tooDeep
  set { s with
    brackets := s.key :: s.brackets
    key := none
    keyAllowed := true
    mapOpened := s.mapOpened || !isList }
  skip 1
  discard lineSpace
  emit (if isList then .listOpen else .mapOpen)

/-- A colon needs no blank behind it if it stands here. -/
def allowAdjacent : YamlScan Unit := modify fun s => { s with adjacent := some s.place.index }

def endPair : YamlScan Unit := do
  if (← get).inPair then
    modify fun s => { s with inPair := false, mapOpened := false }
    emit .mapClose

def closeBracket (isList : Bool) : YamlScan Unit := do
  dropKey
  let s ← get
  match s.brackets with
  | key :: outer => set { s with brackets := outer, key := key }
  | [] => pure ()
  allowKey false
  endPair
  skip 1
  discard lineSpace
  if !(← inBlock) then allowAdjacent
  emit (if isList then .listClose else .mapClose)

def comma : YamlScan Unit := do
  dropKey
  allowKey true
  endPair
  skip 1
  discard lineSpace
  emit .comma

def dash : YamlScan Unit := do
  let s ← get
  if !(← inBlock) || !s.keyAllowed then throw .unexpected
  skip 1
  roll s.place.column s.tokens.size .blockList
  let blanks ← lineSpace
  let c ← peek
  if blanks.contains '\t' && c == '-' && isBlankOrEnd (← peekAt 1) then throw .tab
  if isBreak c || isFlow c then rollOne
  dropKey
  allowKey true
  emit .dash

/-- Takes spaces, line breaks and comments behind a question mark. -/
def keySpace : Nat → YamlScan Unit
  | 0 => return
  | rounds + 1 => do
    let c ← peek
    if c = ' ' then
      skipBlanks 1
      keySpace rounds
    else if isBreak c then
      skipBreak
      if ← inBlock then allowKey true
      keySpace rounds
    else if c = '#' then
      skipLine
      keySpace rounds
    else return

def question : YamlScan Unit := do
  let s ← get
  let outside ← inBlock
  if outside then
    if !s.keyAllowed then throw .misplacedKey
    roll s.place.column s.tokens.size .blockMap
  else modify fun s => { s with mapOpened := true }
  dropKey
  allowKey outside
  skip 1
  let c ← peek
  if c = '\t' ∨ c = '\x00' then throw .unexpected
  keySpace s.rest.length
  if (← peek) == '\t' then throw .tab
  emit .key

def emitAt (number : Nat) (token : YamlToken) : YamlScan Unit :=
  modify fun s => { s with tokens := s.tokens.insertIdxIfInBounds number token }

/-- What could have been a key is one, since there is a colon behind it. The key of a pair has to
be on the line of the colon. -/
def foundKey (key : YamlKey) : YamlScan Unit := do
  let s ← get
  emitAt key.number .key
  if s.inPair then
    if key.place.line < s.place.line then throw .misplacedKey
    emitAt key.number .mapOpen
  modify fun s => { s with key := none }
  roll key.place.column key.number .blockMap
  rollOne
  allowKey false

/-- Takes the colon in front of a value. Within brackets it opens a pair unless a map was opened. -/
def colon : YamlScan Unit := do
  let s ← get
  let outside ← inBlock
  set { s with inPair := !outside && !s.mapOpened }
  skip 1
  if (← peek) == '\t' then
    let blanks ← lineSpace
    if !blanks.contains ' ' && isNameChar (← peek) then throw .tab
  match s.key with
  | some key => foundKey key
  | none =>
    if (← get).inPair then emit .mapOpen
    if outside then
      if !s.keyAllowed then throw .misplacedKey
      roll s.place.column s.tokens.size .blockMap
    rollOne
    allowKey outside
  emit .value

/-- Takes a token in quotes, behind which a colon needs no blank. -/
def quotedKey : YamlScan Unit := do
  saveKey
  allowKey false
  let token ← quoted
  skipToToken ((← get).rest.length + 1)
  allowAdjacent
  emit token

/-- Takes a block scalar, behind which a key can start. -/
def literalKey (asWritten : Bool) : YamlScan Unit := do
  saveKey
  allowKey true
  emit (← literal asWritten)

def leave : YamlScan Unit := do
  unroll (-1)
  dropKey
  allowKey false

/-- Takes the mark between documents, and sees that nothing but a comment is behind one that ends
a document. -/
def documentMark (isStart : Bool) : YamlScan Unit := do
  leave
  skip 3
  if isStart then emit .documentStart
  else
    emit .documentEnd
    discard lineSpace
    if !isEnd (← peek) then throw .unexpected

/-- Whether the mark here is not part of a plain scalar, seen from the character behind it. -/
def standsAlone (c next : Char) : YamlScan Bool := do
  let s ← get
  let inBrackets := !s.brackets.isEmpty
  return isBlankOrEnd next
    || (c == ':' && inBrackets && (isFlow next || s.adjacent == some s.place.index))

def content : YamlScan Unit := do
  let c ← peek
  let outside ← inBlock
  let alone ← standsAlone c (← peekAt 1)
  if c = '[' then openBracket true
  else if c = '\x7b' then openBracket false
  else if c = ']' then closeBracket true
  else if c = '\x7d' then closeBracket false
  else if c = ',' then comma
  else if c = '-' ∧ alone then dash
  else if c = '?' ∧ alone then question
  else if c = ':' ∧ alone then colon
  else if c = '*' then possibleKey (.alias <$> anchorName)
  else if c = '&' then possibleKey (.anchor <$> anchorName)
  else if c = '!' then possibleKey wholeTag
  else if c = '|' ∧ outside then literalKey true
  else if c = '>' ∧ outside then literalKey false
  else if c = '"' ∨ c = '\x27' then quotedKey
  else if c = '%' ∨ c = '@' ∨ c = '\x60' then throw .unexpected
  else possibleKey plain

/-- Takes a token, and tells whether there may be more. -/
def next : YamlScan Bool := do
  skipToToken ((← get).rest.length + 1)
  dropStaleKey
  let s ← get
  unroll s.place.column
  if s.rest.isEmpty then
    leave
    return false
  if s.place.column == 0 && s.rest.head? == some '%' then
    leave
    emit (← directiveLine)
  else if ← atMark '-' then documentMark true
  else if ← atMark '.' then documentMark false
  else if s.place.column < (← get).indent then throw .badIndentation
  else content
  return true

def all : Nat → YamlScan Unit
  | 0 => return
  | rounds + 1 => do if ← next then all rounds

def tokens (text : String) : Except YamlFault (List YamlToken) := do
  let chars := text.toList.takeWhile (· != '\x00')
  let (_, layout) ← all (chars.length + 1) { rest := chars }
  return layout.tokens.toList

end YamlScan

end YangToProto

import YangToProto.Yaml.Value

/-!
# YAML tokens and the layout of a text

A YAML text is a sequence of tokens, some of which nobody writes: collections that are laid out in
blocks start and end with the indentation of their lines, and what is written may turn out to be a
key only at the colon behind it. This module holds what has to be known for that while a text is
read: the place, the indentation of the blocks around it, and the token that may be a key.
-/

namespace YangToProto

inductive YamlToken where
  | version
  | tagDirective (handle start : String)
  | documentStart
  | documentEnd
  | blockList
  | blockMap
  | blockEnd
  | listOpen
  | listClose
  | mapOpen
  | mapClose
  /-- The dash in front of an item. -/
  | dash
  | comma
  /-- What follows is a key. -/
  | key
  /-- What follows is the value of a key. -/
  | value
  | alias (name : String)
  | anchor (name : String)
  | tag (handle name : String)
  | scalar (plain : Bool) (text : String)
deriving DecidableEq, Repr

structure YamlPlace where
  index : Nat := 0
  line : Nat := 0
  column : Nat := 0
deriving DecidableEq, Repr

structure YamlKey where
  /-- It has to be a key, since nothing else can start in its column. -/
  required : Bool
  /-- The number of tokens in front of it. -/
  number : Nat
  place : YamlPlace
deriving DecidableEq, Repr

/-- A column at which something around a place is indented. -/
structure YamlIndent where
  /-- The indentation around it. -/
  outer : Int
  /-- It is that of a block, which ends with it. -/
  isBlock : Bool
deriving DecidableEq, Repr

/-- A text that is read, and what is known about its layout. -/
structure YamlLayout where
  rest : List Char
  place : YamlPlace := {}
  /-- There are only blanks in front of the place on its line. -/
  startsLine : Bool := true
  tokens : Array YamlToken := #[]
  /-- The column of the innermost indentation; there is none at first. -/
  indent : Int := -1
  /-- The indentations around the place, the innermost first. -/
  indents : List YamlIndent := []
  /-- What may turn out to be a key in the innermost collection. -/
  key : Option YamlKey := none
  /-- A key can start at the place. -/
  keyAllowed : Bool := true
  /-- What may turn out to be a key around each open bracket, the innermost first. -/
  brackets : List (Option YamlKey) := []
  /-- A map has been opened since the last pair ended that is a map without brackets. -/
  mapOpened : Bool := false
  /-- The last colon opened a pair that is a map without brackets. -/
  inPair : Bool := false
  /-- The index at which a colon needs no blank behind it. -/
  adjacent : Option Nat := none

/-- A reader takes what it reads from the front of a text. -/
abbrev YamlScan := StateT YamlLayout (Except YamlFault)

namespace YamlScan

/-! ## Characters -/

def isBlank (c : Char) : Bool := c == ' ' || c == '\t'

def isBreak (c : Char) : Bool := c == '\n' || c == '\x0d'

/-- Whether a character ends a line or the text, which the null character does. -/
def isEnd (c : Char) : Bool := isBreak c || c == '\x00'

def isBlankOrEnd (c : Char) : Bool := isBlank c || isEnd c

def isFlow (c : Char) : Bool := c == ',' || c == '[' || c == ']' || c == '\x7b' || c == '\x7d'

def isNameChar (c : Char) : Bool := c.isAlphanum || c == '_' || c == '-'

/-! ## Moving on -/

/-- The character so far ahead; behind the end of the text there are null characters. -/
def peekAt (n : Nat) : YamlScan Char := return (← get).rest[n]?.getD '\x00'

def peek : YamlScan Char := peekAt 0

def column : YamlScan Int := return (← get).place.column

def inBlock : YamlScan Bool := return (← get).brackets.isEmpty

def skipBlanks (n : Nat) : YamlScan Unit := modify fun s =>
  { s with
    rest := s.rest.drop n
    place := { s.place with index := s.place.index + n, column := s.place.column + n } }

/-- Takes so many characters of a line that are not all blanks. -/
def skip (n : Nat) : YamlScan Unit := do
  skipBlanks n
  modify fun s => { s with startsLine := false }

def takeWhile (p : Char → Bool) : YamlScan (List Char) := do
  let found := (← get).rest.takeWhile p
  if !found.isEmpty then skip found.length
  return found

def skipBreak : YamlScan Unit := modify fun s =>
  let length := match s.rest with
    | '\x0d' :: '\n' :: _ => 2
    | _ => 1
  { s with
    rest := s.rest.drop length
    place := ⟨s.place.index + length, s.place.line + 1, 0⟩
    startsLine := true }

def skipLine : YamlScan Unit := do
  let length := ((← get).rest.takeWhile (!isEnd ·)).length
  skipBlanks length

/-- Takes blanks and a comment behind them, and returns the blanks. -/
def lineSpace : YamlScan (List Char) := do
  let blanks := (← get).rest.takeWhile isBlank
  skipBlanks blanks.length
  if (← peek) == '#' then
    if blanks.isEmpty then throw .commentTooClose
    skipLine
  return blanks

/-- Whether the line starts with a mark of three characters that stands alone. -/
def atMark (c : Char) : YamlScan Bool := do
  let s ← get
  let behind := s.rest.drop 3
  return s.place.column == 0 && s.rest.take 3 == [c, c, c]
    && isBlankOrEnd (behind.headD '\x00')

def atDocumentMark : YamlScan Bool := return (← atMark '-') || (← atMark '.')

/-! ## Keys -/

def allowKey (allowed : Bool) : YamlScan Unit := modify fun s => { s with keyAllowed := allowed }

def emit (token : YamlToken) : YamlScan Unit :=
  modify fun s => { s with tokens := s.tokens.push token }

/-- The token that starts here may turn out to be a key. -/
def saveKey : YamlScan Unit := modify fun s =>
  if s.keyAllowed then
    let inOwnColumn := s.brackets.isEmpty && s.indent == s.place.column
    let isBlock := (s.indents.head?.map YamlIndent.isBlock).getD false
    { s with key := some ⟨inOwnColumn && isBlock, s.tokens.size, s.place⟩ }
  else s

def dropKey : YamlScan Unit := do
  if ((← get).key.map YamlKey.required).getD false then throw .misplacedKey
  modify fun s => { s with key := none }

/-- What could have been a key is none if the place is on another line or too far behind it. -/
def dropStaleKey : YamlScan Unit := do
  let s ← get
  match s.key with
  | none => return
  | some key =>
    if s.brackets.isEmpty
        && (key.place.line < s.place.line || key.place.index + 1024 < s.place.index) then
      dropKey

/-! ## Indentation -/

/-- Leaves all indentations that are to the right of a column. The blocks among them end. -/
def unrollTo (col : Int) : List YamlIndent → YamlScan Unit
  | [] => return
  | last :: rest => do
    if col < (← get).indent then
      modify fun s => { s with indent := last.outer, indents := rest }
      if last.isBlock then emit .blockEnd
      unrollTo col rest

/-- Leaves all indentations that are to the right of a column, unless there are open brackets. -/
def unroll (col : Int) : YamlScan Unit := do
  if ← inBlock then unrollTo col (← get).indents

/-- Enters a block at a column if the place is not in one at that column. The token that starts the
block gets the given number. -/
def roll (col : Nat) (number : Nat) (token : YamlToken) : YamlScan Unit := do
  if ← inBlock then
    let s ← get
    match s.indents with
    | last :: rest =>
      if s.indent ≤ col ∧ !last.isBlock then set { s with indent := last.outer, indents := rest }
    | [] => pure ()
    let s ← get
    if s.indent < col then
      set { s with
        indent := col
        indents := ⟨s.indent, true⟩ :: s.indents
        tokens := s.tokens.insertIdxIfInBounds number token }

/-- What follows has to be one column to the right of the block around it. -/
def rollOne : YamlScan Unit := do
  if ← inBlock then
    let s ← get
    match s.indents with
    | ⟨_, true⟩ :: _ =>
      set { s with indent := s.indent + 1, indents := ⟨s.indent, false⟩ :: s.indents }
    | _ => return

/-- Leaves the indentations that are not those of blocks. -/
def unrollOnes : List YamlIndent → YamlScan Unit
  | ⟨outer, false⟩ :: rest => do
    modify fun s => { s with indent := outer, indents := rest }
    unrollOnes rest
  | _ => return

/-- Leaves the indentations around here that are not those of blocks. -/
def unrollToBlock : YamlScan Unit := do unrollOnes (← get).indents

/-! ## Space -/

/-- Takes blanks, line breaks and comments. A tab must not be indentation of what follows. -/
def skipToToken : Nat → YamlScan Unit
  | 0 => return
  | rounds + 1 => do
    let s ← get
    let c ← peek
    if c == '\t' && !s.indents.isEmpty && s.startsLine && s.place.column < s.indent then
      discard lineSpace
      if !isEnd (← peek) then throw .tab
      skipToToken rounds
    else if isBlank c then
      skipBlanks 1
      skipToToken rounds
    else if isBreak c then
      skipBreak
      if ← inBlock then allowKey true
      skipToToken rounds
    else if c = '#' then
      skipLine
      skipToToken rounds
    else return

/-- Takes line breaks and the blanks around them, and counts them. What to do with a tab to the
left of a column is given. -/
def lineBreaks (left : Int) (onTab : YamlScan Unit) : Nat → YamlScan Nat
  | 0 => return 0
  | rounds + 1 => do
    let c ← peek
    if isBlank c then
      if c = '\t' ∧ (← column) < left then onTab else skipBlanks 1
      lineBreaks left onTab rounds
    else if isBreak c then
      skipBreak
      return (← lineBreaks left onTab rounds) + 1
    else return 0

/-- Takes what stands between two words and returns what it means: one line break is a blank, and
more are as many line breaks less one. Behind a line break that does not count, blanks are
nothing. -/
def gap (joined : Bool) (left : Int) (onTab : YamlScan Unit) : YamlScan (List Char) := do
  let rounds := (← get).rest.length + 1
  if joined then return List.replicate (← lineBreaks left onTab rounds) '\n'
  let blanks := (← get).rest.takeWhile isBlank
  skipBlanks blanks.length
  if isBreak (← peek) then
    skipBreak
    let more ← lineBreaks left onTab rounds
    return if more = 0 then [' '] else List.replicate more '\n'
  else return blanks

end YamlScan

end YangToProto

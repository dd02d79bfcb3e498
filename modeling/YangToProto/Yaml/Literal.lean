import YangToProto.Yaml.Token

/-!
# Block scalars in YAML texts

Behind a bar stands a text with its line breaks, and behind a greater-than sign one whose lines
are joined. The text is indented, by as much as its head says or by as much as its first line.
-/

namespace YangToProto

/-- Which of the line breaks at the end of a block scalar count. -/
inductive YamlChomping where
  | none
  | one
  | all
deriving DecidableEq, Repr

namespace YamlScan

/-- Takes the sign that tells which line breaks at the end count. -/
def chomping : YamlScan (Option YamlChomping) := do
  let c ← peek
  if c = '+' then
    skip 1
    return some .all
  else if c = '-' then
    skip 1
    return some .none
  else return none

/-- Takes the number of columns by which the text is indented; zero if it is not given. -/
def indentDigit : YamlScan Nat := do
  let c ← peek
  if c = '0' then throw .unexpected
  else if c.isDigit then
    skip 1
    return c.toNat - '0'.toNat
  else return 0

/-- Takes the sign and the number at the head of a block scalar, in any order. -/
def literalHead : YamlScan (YamlChomping × Nat) := do
  match ← chomping with
  | some found => return (found, ← indentDigit)
  | none =>
    let columns ← indentDigit
    let found ← if columns = 0 then pure none else chomping
    return (found.getD .one, columns)

/-- Takes empty lines and the spaces in front of the text, and returns the number of lines and the
greatest column. -/
def firstIndent (greatest : Nat) : Nat → YamlScan (Nat × Nat)
  | 0 => return (0, greatest)
  | rounds + 1 => do
    skipBlanks ((← get).rest.takeWhile (· == ' ')).length
    let greatest := max greatest (← get).place.column
    if isBreak (← peek) then
      skipBreak
      let (count, greatest) ← firstIndent greatest rounds
      return (count + 1, greatest)
    else return (0, greatest)

/-- Takes empty lines and the spaces in front of a column, and returns the number of lines. -/
def toColumn (col : Nat) : Nat → YamlScan Nat
  | 0 => return 0
  | rounds + 1 => do
    let s ← get
    let spaces := (s.rest.takeWhile (· == ' ')).length
    skipBlanks (min spaces (col - s.place.column))
    if isBreak (← peek) then
      skipBreak
      return (← toColumn col rounds) + 1
    else return 0

/-- What stands between two lines of a block scalar with so many empty lines between them. Joined
lines have a blank between them, unless one of them starts with a blank. -/
def lineGap (literal blankBefore blankBehind : Bool) (empty : Nat) : List Char :=
  if literal || blankBefore || blankBehind then List.replicate (empty + 1) '\n'
  else if empty = 0 then [' ']
  else List.replicate empty '\n'

/-- Whether a line of a block scalar starts here, whose lines stand at a column. -/
def atLine (col : Nat) : YamlScan Bool := do
  let s ← get
  return !s.rest.isEmpty && s.place.column == col && !(col == 0 && (← atMark '.'))

/-- Takes the lines of a block scalar that stand at a column. Returns the text without the line
breaks at its end, and these: whether the last line has one, and the number of empty lines behind
it. What stands in front of the first line is given. -/
def literalLines (literal : Bool) (col : Nat) (between : List Char) :
    Nat → YamlScan (List Char × Bool × Nat)
  | 0 => return ([], false, 0)
  | rounds + 1 => do
    let line := (← get).rest.takeWhile (!isEnd ·)
    skipBlanks line.length
    let text := between ++ line
    if (← get).rest.isEmpty then return (text, false, 0)
    skipBreak
    let empty ← toColumn col rounds
    if ← atLine col then
      let startsBlank (line : List Char) : Bool := (line.head?.map isBlank).getD false
      let between := lineGap literal (startsBlank line) (startsBlank (← get).rest) empty
      let (more, ends) ← literalLines literal col between rounds
      return (text ++ more, ends)
    else return (text, true, empty)

/-- Takes the head of a block scalar and the line break behind it, which there may be. -/
def literalStart : YamlScan (YamlChomping × Nat × Bool) := do
  skip 1
  unrollToBlock
  let (chomping, columns) ← literalHead
  discard lineSpace
  let c ← peek
  if !isEnd c then throw .unexpected
  if isBreak c then skipBreak
  if (← peek) == '\t' then throw .tab
  return (chomping, columns, isBreak c)

/-- Takes the space in front of the text of a block scalar, and returns its column and the number
of empty lines in front of it. -/
def literalColumn (columns : Nat) : YamlScan (Nat × Nat) := do
  let s ← get
  let rounds := s.rest.length + 1
  if columns = 0 then
    let (empty, greatest) ← firstIndent 0 rounds
    let least := if 0 < s.indent then 1 else 0
    return (max (max greatest (s.indent + 1).toNat) least, empty)
  else
    let col := (max s.indent 0).toNat + columns
    return (col, ← toColumn col rounds)

def emptyLiteral (chomping : YamlChomping) (hasBreak : Bool) (empty : Nat) : List Char :=
  match chomping with
  | .none => []
  | .one => if hasBreak then ['\n'] else []
  | .all => if hasBreak then List.replicate (max empty 1) '\n' else []

/-- The line breaks at the end of a block scalar. A last line of spaces at the column of the text
counts for one. -/
def literalEnd (chomping : YamlChomping) (hasBreak lastLine : Bool) (empty : Nat) : List Char :=
  let breaks := hasBreak.toNat + lastLine.toNat
  match chomping with
  | .none => []
  | .one => List.replicate breaks '\n'
  | .all => List.replicate (breaks + empty) '\n'

def literal (asWritten : Bool) : YamlScan YamlToken := do
  let (chomping, columns, hasBreak) ← literalStart
  let (col, empty) ← literalColumn columns
  let s ← get
  if s.rest.isEmpty then
    return .scalar false (String.ofList (emptyLiteral chomping hasBreak empty))
  if s.place.column < col ∧ s.indent < s.place.column then throw .badIndentation
  let (text, hasBreak, empty) ←
    if ← atLine col then
      literalLines asWritten col (List.replicate empty '\n') (s.rest.length + 1)
    else pure ([], false, empty)
  let s ← get
  let lastLine := s.rest.isEmpty && max col 1 ≤ s.place.column
  return .scalar false (String.ofList (text ++ literalEnd chomping hasBreak lastLine empty))

end YamlScan

end YangToProto

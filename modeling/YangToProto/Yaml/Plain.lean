import YangToProto.Yaml.Token

/-!
# Plain scalars in YAML texts

A plain scalar goes on until a mark that cannot stand in it, and over all lines that are indented
deeper than the block around it.
-/

namespace YangToProto.YamlScan

/-- Whether a character may stand in a plain scalar in front of another one. -/
def isPlain (outside : Bool) (c next : Char) : Bool :=
  if c == ':' then !isBlankOrEnd next && (outside || !isFlow next) else outside || !isFlow c

def plainLength (outside : Bool) : List Char → Nat
  | [] => 0
  | c :: rest =>
    if isBlankOrEnd c || !isPlain outside c (rest.headD '\x00') then 0
    else plainLength outside rest + 1

/-- Leaves out what is left of the line behind a tab, which must be nothing. -/
def emptyLine : YamlScan Unit := do
  discard lineSpace
  if !isEnd (← peek) then throw .tab

/-- Takes the words of a plain scalar with what stands between them. Each word takes a round. -/
def plainText (left : Int) (between : List Char) : Nat → YamlScan (List Char)
  | 0 => return []
  | rounds + 1 => do
    let s ← get
    let outside ← inBlock
    let c ← peek
    if c == '#' || (← atDocumentMark) then return []
    if !outside && c == '-' && isFlow (← peekAt 1) then throw .unexpected
    let length := plainLength outside s.rest
    if length = 0 then return []
    let word := between ++ s.rest.take length
    skip length
    let c ← peek
    if isBlank c || isBreak c then
      let between ← gap false left emptyLine
      if outside ∧ (← column) < left then return word
      else return word ++ (← plainText left between rounds)
    else return word

/-- Takes a plain scalar. A key can start behind it if it ends with a line. -/
def plain : YamlScan YamlToken := do
  unrollToBlock
  let s ← get
  let left := s.indent + 1
  if !(← inBlock) && s.place.column < left then throw .badIndentation
  let text ← plainText left [] s.rest.length
  if (← get).startsLine then allowKey true
  if text.isEmpty then throw .unexpected else return .scalar true (String.ofList text)

end YangToProto.YamlScan

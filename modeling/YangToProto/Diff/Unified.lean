import YangToProto.Diff.Compaction

/-!
# Unified diffs

The changes between two texts with three lines of context around them. Changes with few lines
between them share a hunk.

A text is cut behind each line break, which stays with its line. A line feed, a carriage return,
and the two together break a line. Only the last line may lack its break.
-/

namespace YangToProto

namespace Lines

/-- The lines of a text, given the characters of the current line in reverse. -/
def cut (line : List Char) : List Char → List (List Char)
  | [] => if line.isEmpty then [] else [line.reverse]
  | '\x0d' :: '\n' :: rest => ('\n' :: '\x0d' :: line).reverse :: cut [] rest
  | c :: rest =>
    if c = '\n' ∨ c = '\x0d' then (c :: line).reverse :: cut [] rest else cut (c :: line) rest

def ofText (text : String) : List String := (cut [] text.toList).map String.ofList

def isComplete (line : String) : Bool :=
  match line.toList.getLast? with
  | some c => c == '\n' || c == '\x0d'
  | none => false

end Lines

structure PlacedBlock where
  oldStart : Nat
  newStart : Nat
  block : Block

namespace UnifiedDiff

def context : Nat := 3

/-- A block behind some old and new lines. One that only removes or only adds lines is placed in
the other sequence where it was found. -/
def placeBlock (oldLines newLines : Nat) (block : Block) : PlacedBlock :=
  match block with
  | .remove _ found => ⟨oldLines, found, block⟩
  | .add _ found => ⟨found, newLines, block⟩
  | _ => ⟨oldLines, newLines, block⟩

def place (oldLines newLines : Nat) : List Block → List PlacedBlock
  | [] => []
  | block :: rest =>
    placeBlock oldLines newLines block ::
      place (oldLines + block.oldCount) (newLines + block.newCount) rest

def dropKept (count : Nat) (p : PlacedBlock) : PlacedBlock :=
  match p.block with
  | .keep kept => ⟨p.oldStart + count, p.newStart + count, .keep (kept - count)⟩
  | _ => p

def takeKept (count : Nat) (p : PlacedBlock) : PlacedBlock :=
  match p.block with
  | .keep kept => { p with block := .keep (min kept count) }
  | _ => p

/-- The blocks with no more context than is shown in front of the first change. -/
def trimFront : List PlacedBlock → List PlacedBlock
  | [] => []
  | p :: rest =>
    match p.block with
    | .keep kept => dropKept (kept - context) p :: rest
    | _ => p :: rest

/-- The blocks with no more context than is shown behind the last change. -/
def trimBack : List PlacedBlock → List PlacedBlock
  | [] => []
  | [p] => [takeKept context p]
  | p :: rest => p :: trimBack rest

/-- The hunks: a run of equal lines ends one if it is longer than the context on both sides. The
blocks of the current hunk are given in reverse. -/
def split (pending : List PlacedBlock) : List PlacedBlock → List (List PlacedBlock)
  | [] => if pending.any (·.block.isChange) then [pending.reverse] else []
  | p :: rest =>
    match p.block with
    | .keep kept =>
      if 2 * context < kept then
        (takeKept context p :: pending).reverse :: split [dropKept (kept - context) p] rest
      else split (p :: pending) rest
    | _ => split (p :: pending) rest

def hunks (blocks : List Block) : List (List PlacedBlock) :=
  split [] (trimBack (trimFront (place 0 0 blocks)))

/-- A range of lines: the number of its first line and the count, which is left out if it is
one. An empty range is numbered by the line in front of it. -/
def range (start count : Nat) : String :=
  if count = 1 then s!"{start + 1}"
  else if count = 0 then s!"{start},0"
  else s!"{start + 1},{count}"

/-- The line that tells a hunk's place: from the start of its first block to the end of its last
one. -/
def hunkHeader (hunk : List PlacedBlock) : String :=
  match hunk.head?, hunk.getLast? with
  | some first, some last =>
    let oldCount := last.oldStart + last.block.oldCount - first.oldStart
    let newCount := last.newStart + last.block.newCount - first.newStart
    "@@ -" ++ range first.oldStart oldCount ++ " +" ++ range first.newStart newCount ++ " @@\n"
  | _, _ => ""

/-- A line behind its mark. A line without a break is followed by a note that says so. -/
def markLine (mark line : String) : String :=
  if Lines.isComplete line then mark ++ line
  else mark ++ line ++ "\n\\ No newline at end of file\n"

def markLines (mark : String) (lines : Array String) (start count : Nat) : String :=
  String.join ((lines.toList.drop start |>.take count).map (markLine mark))

/-- The text of a block: kept lines, or removed lines and then added ones. -/
def blockText (c : Comparison) (p : PlacedBlock) : String :=
  match p.block with
  | .keep count => markLines " " c.old p.oldStart count
  | block =>
    markLines "-" c.old p.oldStart block.oldCount ++ markLines "+" c.new p.newStart block.newCount

def hunkText (c : Comparison) (hunk : List PlacedBlock) : String :=
  hunkHeader hunk ++ String.join (hunk.map (blockText c))

end UnifiedDiff

structure TextDiff where
  comparison : Comparison
  blocks : List Block

namespace TextDiff

def compare (old new : String) : TextDiff :=
  let comparison : Comparison := ⟨(Lines.ofText old).toArray, (Lines.ofText new).toArray⟩
  ⟨comparison, comparison.blocks⟩

def added (diff : TextDiff) : Nat :=
  (diff.blocks.filter (·.isChange)).foldl (fun lines block => lines + block.newCount) 0

def removed (diff : TextDiff) : Nat :=
  (diff.blocks.filter (·.isChange)).foldl (fun lines block => lines + block.oldCount) 0

/-- The unified diff under the names of both texts; empty if there is no change. -/
def unified (diff : TextDiff) (oldName newName : String) : String :=
  match UnifiedDiff.hunks diff.blocks with
  | [] => ""
  | hunks =>
    s!"--- {oldName}\n+++ {newName}\n" ++
      String.join (hunks.map (UnifiedDiff.hunkText diff.comparison))

end TextDiff

end YangToProto

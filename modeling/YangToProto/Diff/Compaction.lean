import YangToProto.Diff.Script

/-!
# Compact scripts

A shortest script can often be written in several ways. Runs of changes are moved up and then
down as far as they go, so that they meet and become one: two runs of one kind merge, a deletion
and an insertion change places, and an insertion slides over kept lines that are equal to its
own. A deletion does not slide. What an edit tells about the other sequence changes only when it
slides; of two merged edits the upper one's word counts.
-/

namespace YangToProto

namespace Comparison

/-- One edit of a script with the edits before it, the nearest first, and after it, and the
numbers of old and new lines in front of it. -/
structure Focus where
  before : List Edit
  edit : Edit
  after : List Edit
  oldStart : Nat
  newStart : Nat

/-- Edits with one more kept run in front, merged with a kept run that is there. -/
def keepBefore (count : Nat) : List Edit → List Edit
  | .keep more :: rest => .keep (count + more) :: rest
  | edits => if count = 0 then edits else .keep count :: edits

def up? (c : Comparison) (f : Focus) : Option Focus :=
  match f.edit, f.before with
  | .insert count found, .keep kept :: rest =>
    let slid := c.commonBefore f.oldStart (f.newStart + count) (min kept count)
    if slid = 0 then none
    else some
      { before := if kept = slid then rest else .keep (kept - slid) :: rest
        edit := .insert count (found - slid)
        after := keepBefore slid f.after
        oldStart := f.oldStart - slid
        newStart := f.newStart - slid }
  | .insert count _, .insert more found :: rest =>
    some { f with
      before := rest, edit := .insert (more + count) found, newStart := f.newStart - more }
  | .delete count _, .delete more found :: rest =>
    some { f with
      before := rest, edit := .delete (more + count) found, oldStart := f.oldStart - more }
  | .insert _ _, .delete count found :: rest =>
    some { f with
      before := rest, after := .delete count found :: f.after, oldStart := f.oldStart - count }
  | .delete _ _, .insert count found :: rest =>
    some { f with
      before := rest, after := .insert count found :: f.after, newStart := f.newStart - count }
  | _, _ => none

def down? (c : Comparison) (f : Focus) : Option Focus :=
  match f.edit, f.after with
  | .insert count found, .keep kept :: rest =>
    let slid := c.commonFrom f.oldStart f.newStart (min kept count)
    if slid = 0 then none
    else some
      { before := keepBefore slid f.before
        edit := .insert count (found + slid)
        after := if kept = slid then rest else .keep (kept - slid) :: rest
        oldStart := f.oldStart + slid
        newStart := f.newStart + slid }
  | .insert count found, .insert more _ :: rest =>
    some { f with after := rest, edit := .insert (count + more) found }
  | .delete count found, .delete more _ :: rest =>
    some { f with after := rest, edit := .delete (count + more) found }
  | .insert _ _, .delete count found :: rest =>
    some { f with
      after := rest, before := .delete count found :: f.before, oldStart := f.oldStart + count }
  | .delete _ _, .insert count found :: rest =>
    some { f with
      after := rest, before := .insert count found :: f.before, newStart := f.newStart + count }
  | _, _ => none

/-- The focus moved by a step as often as it goes, a number of times at most. -/
def repeatedly (step : Focus → Option Focus) (f : Focus) : Nat → Focus
  | 0 => f
  | rounds + 1 =>
    match step f with
    | some next => repeatedly step next rounds
    | none => f

/-- The script with each wanted edit from the focus on moved up and then down. -/
def settle (c : Comparison) (wanted : Edit → Bool) (f : Focus) : Nat → List Edit
  | 0 => f.before.reverse ++ f.edit :: f.after
  | rounds + 1 =>
    let bound := 2 * (c.old.size + c.new.size) + 2
    let f :=
      if wanted f.edit then repeatedly c.down? (repeatedly c.up? f bound) bound else f
    match f.after with
    | [] => f.before.reverse ++ [f.edit]
    | next :: rest =>
      c.settle wanted
        { before := f.edit :: f.before
          edit := next
          after := rest
          oldStart := f.oldStart + f.edit.oldCount
          newStart := f.newStart + f.edit.newCount } rounds

def settleAll (c : Comparison) (wanted : Edit → Bool) : List Edit → List Edit
  | [] => []
  | edit :: rest =>
    let bound := c.old.size + c.new.size + 2
    c.settle wanted ⟨[], edit, rest, 0, 0⟩ (bound * bound)

def isDelete : Edit → Bool
  | .delete _ _ => true
  | _ => false

def isInsert : Edit → Bool
  | .insert _ _ => true
  | _ => false

def compactScript (c : Comparison) : List Edit :=
  c.settleAll isInsert (c.settleAll isDelete c.script)

end Comparison

/-- A run of equal lines, or a place where lines are replaced by others. A block that only removes
or only adds lines tells where in the other sequence it was found. -/
inductive Block where
  | keep (count : Nat)
  | remove (removed newStart : Nat)
  | add (added oldStart : Nat)
  | replace (removed added : Nat)
deriving DecidableEq

namespace Block

def oldCount : Block → Nat
  | keep count => count
  | remove removed _ => removed
  | add _ _ => 0
  | replace removed _ => removed

def newCount : Block → Nat
  | keep count => count
  | remove _ _ => 0
  | add added _ => added
  | replace _ added => added

def isChange : Block → Bool
  | keep _ => false
  | _ => true

/-- The blocks of a script: all changes between two kept runs are one block. -/
def ofEdits : List Edit → List Block
  | [] => []
  | .keep count :: rest =>
    match ofEdits rest with
    | keep more :: blocks => keep (count + more) :: blocks
    | blocks => keep count :: blocks
  | .delete count found :: rest =>
    match ofEdits rest with
    | remove removed _ :: blocks => remove (count + removed) found :: blocks
    | add added _ :: blocks => replace count added :: blocks
    | replace removed added :: blocks => replace (count + removed) added :: blocks
    | blocks => remove count found :: blocks
  | .insert count found :: rest =>
    match ofEdits rest with
    | remove removed _ :: blocks => replace removed count :: blocks
    | add added _ :: blocks => add (count + added) found :: blocks
    | replace removed added :: blocks => replace removed (count + added) :: blocks
    | blocks => add count found :: blocks

end Block

def Comparison.blocks (c : Comparison) : List Block := Block.ofEdits c.compactScript

end YangToProto

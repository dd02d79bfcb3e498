/-!
# Edit scripts

A script turns one sequence of lines into another by keeping, deleting and inserting runs of
lines. It is found by searching from both ends for the middle of a shortest script, which splits
the sequences in two (`middle?`), until nothing but a deletion or an insertion is left between
equal lines.
-/

namespace YangToProto

/-- A run of lines of one kind. A deletion tells at which line of the new sequence it was found,
and an insertion at which line of the old one. -/
inductive Edit where
  | keep (count : Nat)
  | delete (count newStart : Nat)
  | insert (count oldStart : Nat)
deriving DecidableEq

namespace Edit

def oldCount : Edit → Nat
  | keep count => count
  | delete count _ => count
  | insert _ _ => 0

def newCount : Edit → Nat
  | keep count => count
  | delete _ _ => 0
  | insert count _ => count

end Edit

structure Comparison where
  old : Array String
  new : Array String

namespace Comparison

/-- Whether both sequences have a line at two positions, and the same one. -/
def agree (c : Comparison) (i j : Nat) : Bool :=
  match c.old[i]?, c.new[j]? with
  | some a, some b => a == b
  | _, _ => false

/-- How many lines from two positions on are equal, counted up to a limit. -/
def commonFrom (c : Comparison) (i j : Nat) : Nat → Nat
  | 0 => 0
  | limit + 1 => if c.agree i j then c.commonFrom (i + 1) (j + 1) limit + 1 else 0

/-- How many lines in front of two positions are equal, counted up to a limit. -/
def commonBefore (c : Comparison) (i j : Nat) : Nat → Nat
  | 0 => 0
  | limit + 1 =>
    match i, j with
    | i + 1, j + 1 => if c.agree i j then c.commonBefore i j limit + 1 else 0
    | _, _ => 0

/-- A part of each sequence: from a position on, a number of lines. -/
structure Window where
  oldStart : Nat
  oldCount : Nat
  newStart : Nat
  newCount : Nat

/-- How far the search has come on each diagonal: the number of old lines passed. -/
structure Reach where
  offset : Nat
  lines : Array Nat

namespace Reach

/-- The reach before the search: nothing passed. -/
def start (bound : Nat) : Reach := ⟨bound + 1, Array.replicate (2 * bound + 3) 0⟩

def get (reach : Reach) (diagonal : Int) : Nat :=
  reach.lines.getD (diagonal + reach.offset).toNat 0

def set (reach : Reach) (diagonal : Int) (passed : Nat) : Reach :=
  { reach with lines := reach.lines.setIfInBounds (diagonal + reach.offset).toNat passed }

/-- Where a path with `edits` edits starts on a diagonal: one edit away from the further of the
two paths beside it. -/
def enter (reach : Reach) (edits : Nat) (diagonal : Int) : Nat :=
  if diagonal = -edits ∨
      (diagonal ≠ edits ∧ reach.get (diagonal - 1) < reach.get (diagonal + 1)) then
    reach.get (diagonal + 1)
  else reach.get (diagonal - 1) + 1

end Reach

/-- The diagonals that a number of edits can lead to, the highest one first. -/
def diagonals (edits : Nat) : List Int :=
  (List.range (edits + 1)).map fun (i : Nat) => (edits : Int) - 2 * i

/-- Whether the search from the start and the one from the end meet on the diagonal of the one
that moved last. -/
def meets (w : Window) (moved other : Reach) (diagonal : Int) : Bool :=
  let difference : Int := (w.oldCount : Int) - w.newCount
  w.oldCount ≤ moved.get diagonal + other.get (difference - diagonal)

def forward (c : Comparison) (w : Window) (edits : Nat) (backward : Reach) (reach : Reach) :
    List Int → Except (Nat × Nat) Reach
  | [] => .ok reach
  | diagonal :: rest =>
    let x := reach.enter edits diagonal
    let y := (x - diagonal).toNat
    let equal := c.commonFrom (w.oldStart + x) (w.newStart + y)
      (min (w.oldCount - x) (w.newCount - y))
    let reach := reach.set diagonal (x + equal)
    let difference : Int := (w.oldCount : Int) - w.newCount
    if difference % 2 ≠ 0 ∧ (diagonal - difference).natAbs + 1 ≤ edits ∧
        meets w reach backward diagonal then .error (x, y)
    else forward c w edits backward reach rest

def backward (c : Comparison) (w : Window) (edits : Nat) (forward : Reach) (reach : Reach) :
    List Int → Except (Nat × Nat) Reach
  | [] => .ok reach
  | diagonal :: rest =>
    let x := reach.enter edits diagonal
    let y := (x - diagonal).toNat
    let equal := c.commonBefore (w.oldStart + (w.oldCount - x)) (w.newStart + (w.newCount - y))
      (min (w.oldCount - x) (w.newCount - y))
    let reach := reach.set diagonal (x + equal)
    let difference : Int := (w.oldCount : Int) - w.newCount
    if difference % 2 = 0 ∧ (diagonal - difference).natAbs ≤ edits ∧
        meets w reach forward diagonal then
      .error (w.oldCount - (x + equal), w.newCount - (y + equal))
    else backward c w edits forward reach rest

/-- Moves both searches by one edit at a time until they meet. The point where they do is given
as the numbers of old and new lines before it. -/
def search (c : Comparison) (w : Window) (ahead back : Reach) (edits : Nat) :
    Nat → Option (Nat × Nat)
  | 0 => none
  | rounds + 1 =>
    match c.forward w edits back ahead (diagonals edits) with
    | .error point => some point
    | .ok ahead =>
      match c.backward w edits ahead back (diagonals edits) with
      | .error point => some point
      | .ok back => c.search w ahead back (edits + 1) rounds

/-- A point in the middle of a shortest script for a window. -/
def middle? (c : Comparison) (w : Window) : Option (Nat × Nat) :=
  let bound := (w.oldCount + w.newCount + 1) / 2 + 1
  c.search w (.start bound) (.start bound) 0 bound

/-- The edits for a window. Equal lines at both ends are kept, and what is between them is split
in its middle; the number of splits is bounded by the number of lines. -/
def edits (c : Comparison) (w : Window) : Nat → List Edit
  | 0 => []
  | rounds + 1 =>
    let front := c.commonFrom w.oldStart w.newStart (min w.oldCount w.newCount)
    let back := c.commonBefore (w.oldStart + w.oldCount) (w.newStart + w.newCount)
      (min (w.oldCount - front) (w.newCount - front))
    let inner : Window :=
      ⟨w.oldStart + front, w.oldCount - front - back, w.newStart + front,
        w.newCount - front - back⟩
    let changes : List Edit :=
      match inner.oldCount, inner.newCount with
      | 0, 0 => []
      | deleted, 0 => [.delete deleted inner.newStart]
      | 0, inserted => [.insert inserted inner.oldStart]
      | deleted, inserted =>
        match c.middle? inner with
        | none => [.delete deleted inner.newStart, .insert inserted inner.oldStart]
        | some (x, y) =>
          c.edits ⟨inner.oldStart, x, inner.newStart, y⟩ rounds ++
            c.edits ⟨inner.oldStart + x, deleted - x, inner.newStart + y, inserted - y⟩ rounds
    (if front = 0 then [] else [.keep front]) ++ changes ++
      if back = 0 then [] else [.keep back]

def script (c : Comparison) : List Edit :=
  c.edits ⟨0, c.old.size, 0, c.new.size⟩ (c.old.size + c.new.size + 1)

end Comparison

end YangToProto

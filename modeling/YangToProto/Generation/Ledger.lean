import YangToProto.Collection.SortedMap
import YangToProto.Generation.Error

/-!
# The tag ledger

The tag of a field must never change once its message is in use. The ledger records every tag
that was handed out, by message path and field name; a field that is known keeps its tag, and a
new one comes above every tag that its message ever had.
-/

namespace YangToProto

abbrev FieldTags := SortedMap String UInt32

/-- The tags handed out so far: for each message path the tags of its fields. -/
structure Ledger where
  messages : SortedMap String FieldTags
deriving DecidableEq

namespace Tag

def reservedStart : Nat := 19000

def reservedEnd : Nat := 19999

/-- The largest tag that there is: tags have 29 bits. -/
def maximum : Nat := 536870911

/-- The tag behind the highest one in use, behind the reserved range if it would fall into it;
`none` if there is no more. -/
def next? (highest : UInt32) : Option UInt32 :=
  let tag := highest.toNat + 1
  let tag := if reservedStart ≤ tag ∧ tag ≤ reservedEnd then reservedEnd + 1 else tag
  if tag ≤ maximum then some (UInt32.ofNat tag) else none

end Tag

namespace FieldTags

/-- The highest tag, 0 if there is none. -/
def highest (known : FieldTags) : UInt32 := known.values.foldl max 0

/-- Tags for fields in turn, given the highest tag so far, and the tags known afterwards. When
the tags run out, `none` takes the place of the tags; fields before that stay recorded. -/
def assign (highest : UInt32) (known : FieldTags) :
    List String → Option (List UInt32) × FieldTags
  | [] => (some [], known)
  | field :: rest =>
    match known.find? field with
    | some tag =>
      let (tags, known) := assign highest known rest
      (tags.map (tag :: ·), known)
    | none =>
      match Tag.next? highest with
      | none => (none, known)
      | some tag =>
        let (tags, known) := assign tag (known.insert field tag) rest
        (tags.map (tag :: ·), known)

end FieldTags

namespace Ledger

def empty : Ledger := ⟨∅⟩

instance : EmptyCollection Ledger := ⟨empty⟩

def isEmpty (ledger : Ledger) : Bool := ledger.messages.isEmpty

def tag? (ledger : Ledger) (messagePath field : String) : Option UInt32 :=
  (ledger.messages.find? messagePath).bind (·.find? field)

def fieldTags (ledger : Ledger) (messagePath : String) : FieldTags :=
  (ledger.messages.find? messagePath).getD ∅

/-- The tags of a message's fields in emitted order, recording new ones. The message is recorded
even if it has no fields or its tags run out. -/
def assign (ledger : Ledger) (messagePath : String) (fields : List String) :
    Except GenerationError (List UInt32) × Ledger :=
  let known := ledger.fieldTags messagePath
  let (tags, after) := known.assign known.highest fields
  let recorded : Ledger := ⟨ledger.messages.insert messagePath after⟩
  match tags with
  | some tags => (.ok tags, recorded)
  | none => (.error (.unimplemented s!"message {messagePath} has exhausted the field tag space"),
      recorded)

end Ledger

end YangToProto

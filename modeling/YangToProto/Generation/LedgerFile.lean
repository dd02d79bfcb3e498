import YangToProto.Files.Access
import YangToProto.Files.Path
import YangToProto.Generation.Ledger
import YangToProto.Json.Print
import YangToProto.Json.Scan

/-!
# Ledger files

A ledger is kept in a JSON file: an object of messages, each an object of fields and their tags,
all in name order. The file is indented and ends with a line break. A ledger that was never saved
is empty.
-/

namespace YangToProto.Ledger

def tagsToJson (tags : FieldTags) : Json :=
  .object (tags.entries.map fun (field, tag) => (field, .ofInt tag.toNat))

def toJson (ledger : Ledger) : Json :=
  .object [("messages",
    .object (ledger.messages.entries.map fun (path, tags) => (path, tagsToJson tags)))]

def write (ledger : Ledger) : String := ledger.toJson.pretty 0 ++ "\n"

def scanTag : Scan UInt32 := do
  match ← Scan.peek with
  | some c =>
    if c = '-' || c.isDigit then
      match ← Scan.number with
      | .integer value =>
        if 0 ≤ value ∧ value < UInt32.size then return UInt32.ofNat value.toNat
        else Scan.misfit (.invalidValue (.number (.integer value)) "u32")
      | found => Scan.misfit (.invalidType (.number found) "u32")
    else Scan.wrongType "u32"
  | none => Scan.wrongType "u32"

/-- Takes an object as a map; of members with one name the last counts. -/
def scanMap {α : Type} (rounds depth : Nat) (value : Nat → Scan α) : Scan (SortedMap String α) :=
  Scan.expectMembers "a map" rounds depth
    (fun depth name found => do
      Scan.colon
      return found.insert name (← value depth))
    ∅

def scanMessages (rounds depth : Nat) : Scan (SortedMap String FieldTags) :=
  scanMap rounds depth fun depth => scanMap rounds depth fun _ => scanTag

/-- Takes a ledger: an object, or an array whose only item is the recorded messages. -/
def scan (rounds depth : Nat) : Scan Ledger := do
  match ← Scan.peek with
  | some '[' =>
    match depth with
    | 0 => Scan.malformed .tooDeep
    | depth + 1 =>
      Scan.advance
      let messages ← if ← Scan.nextItem true then scanMessages rounds depth else pure ∅
      Scan.endList
      return ⟨messages⟩
  | _ =>
    let messages ← Scan.expectMembers "struct TagLedger" rounds depth
      (fun depth name (known : Option (SortedMap String FieldTags)) => do
        if name == "messages" then Scan.once "messages" known (scanMessages rounds depth)
        else
          Scan.skipMember rounds
          return known)
      none
    return ⟨messages.getD ∅⟩

def read (text : String) : Except JsonFault Ledger := Scan.run scan text

inductive LoadFault where
  | file (fault : FileFault)
  | json (fault : JsonFault)

variable {m : Type → Type} [Monad m] [FileAccess m]

/-- The ledger in a file. A file that is not there holds an empty ledger. -/
def load (path : String) : ExceptT LoadFault m Ledger := do
  if ← (FileAccess.pathExists path : m Bool) then
    let text ← (FileAccess.readText path).adapt LoadFault.file
    match read text with
    | .ok ledger => return ledger
    | .error fault => throw (.json fault)
  else return .empty

/-- Saves a ledger in a file, for which directories are made as needed. -/
def save (path : String) (ledger : Ledger) : ExceptT FileFault m Unit := do
  FileAccess.createDirectories (Path.parent path)
  FileAccess.writeText path ledger.write

end YangToProto.Ledger

import YangToProto.Diff.Unified
import YangToProto.Digest
import YangToProto.Files.Access
import YangToProto.Files.Path
import YangToProto.Generation.Output

/-!
# Generated files on disk

A run's files are written below a directory. Later the files there can be compared with those of
another run: a file whose content has the same digest is unchanged, and every other file is
reported with the changes that would bring it up to date.
-/

namespace YangToProto

inductive DriftStatus where
  | unchanged
  | missing
  /-- The counts of lines that only the generated file has and that only the file on disk has. -/
  | changed (added removed : Nat)
deriving DecidableEq, Repr

structure FileDrift where
  path : String
  status : DriftStatus
  /-- The unified diff from the file on disk to the generated one; empty if nothing changed. -/
  diff : String
deriving DecidableEq, Repr

namespace FileDrift

def isDrifted (drift : FileDrift) : Bool := drift.status != .unchanged

def ofMissing (path generated : String) : FileDrift :=
  ⟨path, .missing, (TextDiff.compare "" generated).unified "/dev/null" path⟩

def ofTexts (path onDisk generated : String) : FileDrift :=
  if (Digest.ofText generated).verify onDisk then ⟨path, .unchanged, ""⟩
  else
    let diff := TextDiff.compare onDisk generated
    ⟨path, .changed diff.added diff.removed, diff.unified path path⟩

end FileDrift

namespace ProtoFile

variable {m : Type → Type} [Monad m] [FileAccess m]

def writeTo (dir : String) (file : ProtoFile) : ExceptT FileFault m String := do
  let path := Path.join dir file.path
  FileAccess.createDirectories (Path.parent path)
  FileAccess.writeText path file.content
  return path

def drift (dir : String) (file : ProtoFile) : ExceptT FileFault m FileDrift := do
  let path := Path.join dir file.path
  if ← (FileAccess.pathExists path : m Bool) then
    return .ofTexts path (← FileAccess.readText path) file.content
  else return .ofMissing path file.content

end ProtoFile

namespace Output

variable {m : Type → Type} [Monad m] [FileAccess m]

/-- Writes the files below a directory in order of their packages and gives their paths. -/
def writeTo (dir : String) (output : Output) : ExceptT FileFault m (List String) :=
  output.toList.mapM fun file => file.writeTo dir

/-- Compares the files with those below a directory, in order of their packages. -/
def drift (dir : String) (output : Output) : ExceptT FileFault m (List FileDrift) :=
  output.toList.mapM fun file => file.drift dir

end Output

end YangToProto

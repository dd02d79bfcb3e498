import YangToProto.Files.Access
import YangToProto.Files.Path

/-!
# A file system as a value

A disk is a finite map from locations to files and directories. Paths are followed name by name:
each name but the last must lead to a directory. Writing a file changes what its own location
holds and nothing else (`lookup?_put`).
-/

namespace YangToProto

inductive Base where
  | root
  /-- The working directory, or the directory some levels above it. -/
  | above (levels : Nat)
deriving DecidableEq, Repr

/-- A place in a file system: the names from the base to it, the last one first. -/
structure Location where
  base : Base
  names : List String
deriving DecidableEq, Repr

namespace Location

def child (l : Location) (name : String) : Location := { l with names := name :: l.names }

/-- The directory around a place; the root is its own. -/
def up : Location → Location
  | ⟨base, _ :: names⟩ => ⟨base, names⟩
  | ⟨.above levels, []⟩ => ⟨.above (levels + 1), []⟩
  | ⟨.root, []⟩ => ⟨.root, []⟩

def start (path : String) : Location := ⟨if Path.isAbsolute path then .root else .above 0, []⟩

end Location

inductive FileContent where
  | text (content : String)
  /-- Bytes that are not a text. -/
  | binary
deriving DecidableEq, Repr

inductive DiskEntry where
  | directory
  | file (content : FileContent)
deriving DecidableEq, Repr

/-- The files and directories of a file system. The base directories always exist. -/
structure Disk where
  entries : List (Location × DiskEntry)
deriving DecidableEq

namespace Disk

def empty : Disk := ⟨[]⟩

def lookup? (disk : Disk) (l : Location) : Option DiskEntry :=
  if l.names.isEmpty then some .directory else disk.entries.lookup l

def put (disk : Disk) (l : Location) (entry : DiskEntry) : Disk :=
  ⟨(l, entry) :: disk.entries.filter (·.1 != l)⟩

def clear (disk : Disk) (l : Location) : Disk := ⟨disk.entries.filter (·.1 != l)⟩

theorem lookup_filter_ne {l k : Location} (h : k ≠ l) (entries : List (Location × DiskEntry)) :
    (entries.filter (·.1 != l)).lookup k = entries.lookup k := by
  induction entries with
  | nil => rfl
  | cons head rest ih =>
    obtain ⟨key, value⟩ := head
    by_cases hk : key = l
    · subst hk
      have : (k == key) = false := by simpa using h
      simp [List.lookup_cons, this, ih]
    · simp only [List.filter_cons, bne_iff_ne, ne_eq, hk, not_false_eq_true, ↓reduceIte,
        List.lookup_cons, ih]

/-- A location other than the bases holds what was put there last; all others stay the same. -/
theorem lookup?_put (disk : Disk) (l k : Location) (entry : DiskEntry) :
    (disk.put l entry).lookup? k =
      if k = l ∧ k.names ≠ [] then some entry else disk.lookup? k := by
  unfold lookup? put
  by_cases hn : k.names = []
  · simp [hn]
  · by_cases hk : k = l
    · subst hk
      simp [hn]
    · have : (k == l) = false := by simpa using hk
      simp [hn, hk, List.lookup_cons, this, lookup_filter_ne hk]

/-- The longest name that a file can have, in bytes. -/
def longestName : Nat := 255

/-- The longest path that can be followed, in bytes. -/
def longestPath : Nat := 4095

/-- The fault of a path that cannot be followed whatever there is on the disk. -/
def pathFault? (path : String) : Option FileFault :=
  if path.toList.contains '\x00' then some .endInsideName
  else if path.isEmpty then some .notFound
  else if longestPath < path.utf8ByteSize then some .nameTooLong
  else none

def step (disk : Disk) (l : Location) (name : String) : Except FileFault Location :=
  match disk.lookup? l with
  | none => .error .notFound
  | some (.file _) => .error .notDirectory
  | some .directory =>
    if name = "." then .ok l
    else if name = ".." then .ok l.up
    else if longestName < name.utf8ByteSize then .error .nameTooLong
    else .ok (l.child name)

/-- The location that some steps from the start of a path lead to. All but the last must lead to
directories. -/
def follow (disk : Disk) (path : String) (steps : List String) : Except FileFault Location :=
  match pathFault? path with
  | some fault => .error fault
  | none => steps.foldlM disk.step (Location.start path)

def find (disk : Disk) (path : String) : Except FileFault DiskEntry := do
  match disk.lookup? (← disk.follow path (Path.steps path)) with
  | some entry => .ok entry
  | none => .error .notFound

def pathExists (disk : Disk) (path : String) : Bool := (disk.find path).isOk

def isFile (disk : Disk) (path : String) : Bool :=
  match disk.find path with
  | .ok (.file _) => true
  | _ => false

def readText (disk : Disk) (path : String) : Except FileFault String := do
  match ← disk.find path with
  | .directory => .error .isDirectory
  | .file .binary => .error .notText
  | .file (.text content) => .ok content

def writeLocation (disk : Disk) (path : String) : Except FileFault Location := do
  let l ← disk.follow path (Path.names path)
  if Path.endsInside path || disk.lookup? l == some .directory then .error .isDirectory else .ok l

def write (disk : Disk) (path : String) (content : FileContent) : Except FileFault Disk := do
  return disk.put (← disk.writeLocation path) (.file content)

/-- Takes one step of a path and makes a directory there if there is nothing. The directories
made so far stay if a later step fails. -/
def descend (l : Location) (name : String) : ExceptT FileFault (StateM Disk) Location := do
  let disk ← get
  let next ← disk.step l name
  if (disk.lookup? next).isNone then set (disk.put next .directory)
  return next

def createDirectories (path : String) : ExceptT FileFault (StateM Disk) Unit := do
  if path.isEmpty then return
  if let some fault := pathFault? path then throw fault
  let l ← (Path.names path).foldlM descend (Location.start path)
  match (← get).lookup? l with
  | some .directory => return
  | _ => throw .alreadyExists

def remove? (disk : Disk) (path : String) : Option Disk :=
  match disk.follow path (Path.names path) with
  | .ok l =>
    match disk.lookup? l with
    | some (.file _) => some (disk.clear l)
    | _ => none
  | .error _ => none

def files (disk : Disk) : List (String × FileContent) :=
  disk.entries.filterMap fun (l, entry) =>
    match l.base, entry with
    | .above 0, .file content => some (Segments.toString '/' l.names.reverse, content)
    | _, _ => none

end Disk

instance : FileAccess (StateM Disk) where
  pathExists path := return (← get).pathExists path
  isFile path := return (← get).isFile path
  readText path := do (← get).readText path
  writeText path text := do set (← (← get).write path (.text text))
  createDirectories := Disk.createDirectories

end YangToProto

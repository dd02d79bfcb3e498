import YangToProto.CommandLine.Run

/-!
# The program

Runs the command line on the files and in the environment of a computer.
-/

namespace YangToProto

def unsignedCode (code : UInt32) : Nat := min code.toNat (-code).toNat

/-- The number that the operating system has for an error. It may be given negated. -/
def osCode : IO.Error → Option Nat
  | .noFileOrDirectory _ code _ => some (unsignedCode code)
  | .alreadyExists _ code _ => some (unsignedCode code)
  | .inappropriateType _ code _ => some (unsignedCode code)
  | .invalidArgument _ code _ => some (unsignedCode code)
  | _ => none

def FileFault.ofError (error : IO.Error) : FileFault :=
  match osCode error with
  | some 2 => .notFound
  | some 17 => .alreadyExists
  | some 20 => .notDirectory
  | some 21 => .isDirectory
  | some 36 => .nameTooLong
  | _ => .other (toString error)

def orFault {α : Type} (action : IO α) : ExceptT FileFault IO α := ExceptT.mk do
  try return .ok (← action) catch error => return .error (.ofError error)

def succeeds {α : Type} (action : IO α) : IO Bool := do
  try
    let _ ← action
    return true
  catch _ => return false

instance : FileAccess IO where
  pathExists path := succeeds (IO.FS.Handle.mk path .read)
  isFile path := succeeds (IO.FS.readBinFile path)
  readText path := do
    let bytes ← orFault (IO.FS.readBinFile path)
    match String.fromUTF8? bytes with
    | some text => return text
    | none => throw .notText
  writeText path text := orFault (IO.FS.writeFile path text)
  createDirectories path := do
    unless path.isEmpty do orFault (IO.FS.createDirAll path)

/-- The variables in a text in which each ends with a null character. -/
def Environment.ofText (text : String) : Environment :=
  (Segments.ofString '\x00' text).filterMap fun pair =>
    match Segments.ofString '=' pair with
    | name :: value :: more => some (name, Segments.toString '=' (value :: more))
    | _ => none

def Environment.ofProcess : IO Environment := do
  try
    let bytes ← IO.FS.readBinFile "/proc/self/environ"
    return Environment.ofText ((String.fromUTF8? bytes).getD "")
  catch _ => return []

def Environment.userDir (environment : Environment) : Option String :=
  match (environment.lookup "XDG_CONFIG_HOME").filter Path.isAbsolute with
  | some dir => some dir
  | none => (environment.lookup "HOME").map fun home => Path.join home ".config"

def CommandLine.start (arguments : List String) : IO UInt32 := do
  let environment ← Environment.ofProcess
  let exit : Exit ← CommandLine.run ⟨environment.userDir, environment⟩ arguments
  IO.print exit.output
  IO.eprint exit.errors
  return exit.code

end YangToProto

def main (arguments : List String) : IO UInt32 := YangToProto.CommandLine.start arguments

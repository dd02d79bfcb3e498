/-!
# Access to files

What the program does with files, for any kind of effect, and the reasons why a file or directory
cannot be used. The command line runs the program on the files of a computer, and the same program
runs on a file system that is a value (`YangToProto.Files.Disk`), where its effect is a function.
-/

namespace YangToProto

inductive FileFault where
  | notFound
  | alreadyExists
  | notDirectory
  | isDirectory
  | nameTooLong
  /-- A file that is read as text does not hold text. -/
  | notText
  /-- A path holds the character that ends a path for the operating system. -/
  | endInsideName
  /-- A fault with a text of its own. -/
  | other (text : String)
deriving DecidableEq, Repr

def FileFault.message : FileFault → String
  | notFound => "No such file or directory (os error 2)"
  | alreadyExists => "File exists (os error 17)"
  | notDirectory => "Not a directory (os error 20)"
  | isDirectory => "Is a directory (os error 21)"
  | nameTooLong => "File name too long (os error 36)"
  | notText => "stream did not contain valid UTF-8"
  | endInsideName => "file name contained an unexpected NUL byte"
  | other text => text

class FileAccess (m : Type → Type) where
  /-- Whether a path leads to a file or directory. -/
  pathExists : String → m Bool
  /-- Whether a path leads to a file. -/
  isFile : String → m Bool
  /-- The text in a file. -/
  readText : String → ExceptT FileFault m String
  /-- Makes a text the content of a file, which need not exist. -/
  writeText : String → String → ExceptT FileFault m Unit
  /-- Makes a directory and those around it as far as they are missing. -/
  createDirectories : String → ExceptT FileFault m Unit

end YangToProto

import YangToProto.Text.Segments

/-!
# File paths

A path is a text of names with slashes between them. Paths are joined and taken apart as texts,
so that what a user gave is shown again unchanged; only a file system says what they lead to.
-/

namespace YangToProto.Path

def isAbsolute (path : String) : Bool := path.toList.head? == some '/'

/-- Whether a path ends with a slash, which leads into a directory. -/
def endsInside (path : String) : Bool := path.toList.getLast? == some '/'

/-- The path of something below a directory. An empty directory adds nothing, and a path that
starts at the root stays as it is. -/
def join (dir path : String) : String :=
  if isAbsolute path || dir.isEmpty then path
  else if endsInside dir then dir ++ path
  else dir ++ "/" ++ path

def names (path : String) : List String :=
  (Segments.ofString '/' path).filter (!·.isEmpty)

/-- The steps that a path takes; a slash at the end is one more step on the spot. -/
def steps (path : String) : List String :=
  if endsInside path then names path ++ ["."] else names path

/-- The pieces without those at the end that lead nowhere. -/
def dropIdle (pieces : List (List Char)) : List (List Char) :=
  (pieces.reverse.dropWhile fun piece => piece == [] || piece == ['.']).reverse

def trimmed (path : String) : String :=
  String.ofList (Segments.join '/' (dropIdle (Segments.split '/' path.toList)))

/-- The path of the directory around what a path leads to; empty if that is the directory in
which the path starts. -/
def parent (path : String) : String :=
  match dropIdle (dropIdle (Segments.split '/' path.toList)).dropLast with
  | [] => if isAbsolute path then "/" else ""
  | pieces => String.ofList (Segments.join '/' pieces)

/-- The last name of a path, if the path does not end by going up. -/
def fileName? (path : String) : Option String :=
  match ((names path).filter (· != ".")).getLast? with
  | some ".." => none
  | last => last

/-- The extension of a file name: what stands behind its last dot. A dot in front of the whole
name starts no extension. -/
def extension? (name : String) : Option String :=
  match Segments.ofString '.' name with
  | [_] => none
  | ["", _] => none
  | pieces => pieces.getLast?

end YangToProto.Path

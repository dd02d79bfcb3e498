import YangToProto.Collection.SortedMap

/-!
# Identifiers and packages

Protocol buffer identifiers hold ASCII letters, digits and underscores. `sanitize` puts an
underscore for everything else, `pascalCase` joins the words of a name, and `NameSet.claim`
keeps the identifiers of one scope apart by numeric suffixes.

A package is a dotted name. Its file stands at the path that has a slash for each dot.
-/

namespace YangToProto

namespace Identifier

def isAllowed (c : Char) : Bool := c.isAlphanum || c == '_'

/-- The name with an underscore for every character that an identifier may not hold. -/
def sanitize (name : String) : String := name.map fun c => if isAllowed c then c else '_'

def isSeparator (c : Char) : Bool := c == '_' || c == '-' || c == '.' || c == ' '

/-- The characters without separators, each word with its first letter in upper case;
`atStart` says whether a word is about to start. -/
def capitalize (atStart : Bool) : List Char → List Char
  | [] => []
  | c :: rest =>
    if isSeparator c then capitalize true rest
    else (if atStart then c.toUpper else c) :: capitalize false rest

/-- The words of a name run together, each with a capital letter, as an identifier. -/
def pascalCase (name : String) : String :=
  sanitize (String.ofList (capitalize true name.toList))

def numbered (name : String) (n : Nat) : String := s!"{name}_{n}"

end Identifier

namespace NameSet

/-- The candidate itself if it is free, otherwise the candidate with the least positive suffix
that is free. One of the first `used.size + 1` suffixes is, so the search is bounded. -/
def firstFree (used : NameSet) (candidate : String) : String :=
  if used.contains candidate then
    match (List.range' 1 (used.size + 1)).find?
        fun n => !used.contains (Identifier.numbered candidate n) with
    | some n => Identifier.numbered candidate n
    | none => candidate
  else candidate

/-- The first free suffix from `n` on, for a number of rounds. A 32-bit counter runs through the
suffixes, and there is none if it overflows. -/
def freeSuffix? (used : NameSet) (candidate : String) : Nat → Int32 → Option Int32
  | 0, _ => none
  | rounds + 1, n =>
    if used.contains (Identifier.numbered candidate n.toNatClampNeg) then
      if n = Int32.maxValue then none else freeSuffix? used candidate rounds (n + 1)
    else some n

/-- The candidate itself if it is free, otherwise the candidate with the first free suffix, and the
set with that name in it. -/
def disambiguate? (used : NameSet) (candidate : String) : Option (String × NameSet) :=
  if used.contains candidate then
    (freeSuffix? used candidate 2147483648 1).map fun n =>
      let name := Identifier.numbered candidate n.toNatClampNeg
      (name, used.add name)
  else some (candidate, used.add candidate)

/-- A free name made from the candidate, and the set with that name in it. Where the counter of
suffixes overflows, for which `2 ^ 31` names must be in use, a longer search follows. -/
def claim (used : NameSet) (candidate : String) : String × NameSet :=
  (used.disambiguate? candidate).getD
    (let name := used.firstFree candidate
    (name, used.add name))

end NameSet

namespace Package

/-- The path by which other files import a package, without the file's extension. -/
def importPath (package : String) : String := package.map fun c => if c = '.' then '/' else c

def filePath (package : String) : String := importPath package ++ ".proto"

def dotted (parts : List String) : String := String.intercalate "." parts

end Package

end YangToProto

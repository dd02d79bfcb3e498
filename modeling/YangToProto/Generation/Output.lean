import YangToProto.Generation.Config
import YangToProto.Proto.Identifier
import YangToProto.Proto.Text

/-!
# Files

The messages of a run are grouped into one file per package. The records of a run
(`GeneratedRecords`) say everything that is generated; a file is a header followed by the texts
of the records of its package.
-/

namespace YangToProto

/-- The messages of one directory, key wrappers first, with the package that they stand in. -/
structure MessageGroup where
  package : String
  messages : List Message

/-- What stands in a file behind its header, and what that needs to be imported. -/
structure FileBody where
  code : String
  imports : List String
deriving DecidableEq

namespace FileBody

def empty : FileBody := ⟨"", []⟩

def addImports (imports more : List String) : List String :=
  more.foldl (fun found path => if found.contains path then found else found ++ [path]) imports

def add (body : FileBody) (code : String) (imports : List String) : FileBody :=
  ⟨body.code ++ code, addImports body.imports imports⟩

end FileBody

namespace MessageGroup

/-- The text of the group's messages with the imports of other packages, in order of first
use. -/
def body (group : MessageGroup) : FileBody :=
  group.messages.foldl
    (fun body message => body.add message.render
      (message.imports.filter (· != Package.importPath group.package)))
    FileBody.empty

end MessageGroup

structure GeneratedRecords where
  groups : List MessageGroup
  enums : List PackageEnum

structure ProtoFile where
  package : String
  /-- Path below the output directory. -/
  path : String
  /-- Import paths of other generated packages, in order of first use. -/
  imports : List String
  content : String
deriving DecidableEq

structure Output where
  files : SortedMap String ProtoFile
deriving DecidableEq

namespace Output

def find? (output : Output) (package : String) : Option ProtoFile := output.files.find? package

def toList (output : Output) : List ProtoFile := output.files.values

end Output

namespace GeneratedRecords

def addTo (bodies : SortedMap String FileBody) (package : String) (more : FileBody) :
    SortedMap String FileBody :=
  bodies.insert package (((bodies.find? package).getD .empty).add more.code more.imports)

/-- The body of each package: the groups in order and then, in the package of shared enums, the
enums. -/
def bodies (config : Config) (records : GeneratedRecords) : SortedMap String FileBody :=
  let messages := records.groups.foldl
    (fun bodies group => addTo bodies group.package group.body) SortedMap.empty
  records.enums.foldl
    (fun bodies enum => addTo bodies config.enumPackage ⟨enum.render, []⟩) messages

def header (config : Config) (sources : Sources) (package : String) (imports : List String) :
    Header where
  package := package
  callerName := config.callerName
  sourceFiles := sources.yangFiles
  includePaths := sources.includePaths
  imports := imports
  baseImportPath := config.baseImportPath
  wrapperTypes := config.wrapperTypes
  annotateSchemaPaths := config.annotateSchemaPaths

/-- The file of a package with a given body. A file does not import itself. -/
def file (config : Config) (sources : Sources) (package : String) (body : FileBody) : ProtoFile :=
  let imports := body.imports.filter (· != Package.importPath package)
  { package := package
    path := Package.filePath package
    imports := imports
    content := (header config sources package imports).render ++ body.code }

def output (config : Config) (sources : Sources) (records : GeneratedRecords) : Output :=
  ⟨(records.bodies config).entries.foldl
    (fun files (package, body) => files.insert package (file config sources package body))
    SortedMap.empty⟩

end GeneratedRecords

end YangToProto

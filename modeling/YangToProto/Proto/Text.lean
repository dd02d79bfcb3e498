import YangToProto.Proto.Record

/-!
# The text of files

A file is a header followed by messages and enums, each behind an empty line. Writing checks
nothing: equal records have equal texts.
-/

namespace YangToProto

def wrapperImport : String := "github.com/openconfig/ygot/proto/ywrapper/ywrapper.proto"

def optionImport : String := "github.com/openconfig/ygot/proto/yext/yext.proto"

structure Header where
  package : String
  /-- Name of the generating program. -/
  callerName : String
  sourceFiles : List String
  includePaths : List String
  /-- Import paths of other generated packages, without the extension. -/
  imports : List String
  baseImportPath : String
  wrapperTypes : Bool
  annotateSchemaPaths : Bool

namespace Header

/-- An import path below the base path, whose slashes at the end do not count. -/
def joinImport (base : String) (path : String) : String :=
  match (base.toList.reverse.dropWhile (· == '/')).reverse with
  | [] => path
  | kept => String.ofList kept ++ "/" ++ path

def importLines (header : Header) : List String :=
  (if header.wrapperTypes then [wrapperImport] else []) ++
  (if header.annotateSchemaPaths then [optionImport] else []) ++
  header.imports.map fun path => joinImport header.baseImportPath path ++ ".proto"

def render (header : Header) : String :=
  s!"// {header.package} is generated by {header.callerName} as a protobuf\n" ++
  "// representation of a YANG schema.\n" ++
  "//\n" ++
  "// Input schema modules:\n" ++
  String.join (header.sourceFiles.map fun file => s!"//  - {file}\n") ++
  "// Include paths:\n" ++
  String.join (header.includePaths.map fun path => s!"//   - {path}\n") ++
  "syntax = \"proto3\";\n\n" ++
  s!"package {header.package};\n" ++
  match header.importLines with
  | [] => ""
  | paths => "\n" ++ String.join (paths.map fun path => s!"import \"{path}\";\n")

end Header

/-- The value lines of an enum in increasing order of their numbers. A value is named for its
enum and its symbol. -/
def EnumTable.render (indent : String) (enumName : String) (values : EnumTable) : String :=
  String.join (values.entries.map fun (number, symbol) =>
    s!"{indent}{enumName}_{symbol} = {number};\n")

def Field.render (field : Field) : String :=
  "  " ++ (if field.repeated then "repeated " else "") ++
  s!"{field.typeName} {field.name} = {field.tag.toNat}" ++
  (match field.options with
    | [] => ""
    | options => " [" ++ String.intercalate ", " options ++ "]") ++
  ";\n"

namespace Message

def comment (message : Message) : String :=
  match message.kind with
  | .directory =>
    s!"// {message.name} represents the {message.schemaPath} YANG schema element.\n"
  | .listKey =>
    s!"// {message.name} represents the list element {message.schemaPath} " ++
    "of the YANG schema. It\n" ++
    "// contains only the keys of the list, and an embedded message containing all entries\n" ++
    "// below this entity in the schema.\n"

def renderEnum (name : String) (values : EnumTable) : String :=
  s!"  enum {name} \x7b\n" ++ values.render "    " name ++ "  \x7d\n"

/-- The text of a message: its comment, then its enums in name order and its fields. -/
def render (message : Message) : String :=
  "\n" ++ message.comment ++ s!"message {message.name} \x7b\n" ++
  String.join (message.enums.entries.map fun (name, values) => renderEnum name values) ++
  String.join (message.fields.map Field.render) ++
  "\x7d\n"

end Message

def PackageEnum.render (enum : PackageEnum) : String :=
  "\n" ++
  s!"// {enum.name} represents an enumerated type generated for the {enum.description}.\n" ++
  s!"enum {enum.name} \x7b\n" ++ enum.values.render "  " enum.name ++ "\x7d\n"

end YangToProto

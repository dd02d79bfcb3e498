import YangToProto.Generation.Config
import YangToProto.Settings.Fault
import YangToProto.Settings.Value

/-!
# The settings of a run

The program reads its settings from a group of three groups: how to generate, where the schema
came from and where files go. What is not set has a default, and what nobody knows is ignored.
-/

namespace YangToProto

structure Settings where
  generator : Config := {}
  sources : Sources := {}
  /-- The directory below which files are written. -/
  outputDir : String := "proto"
deriving DecidableEq

namespace Settings

/-- A field that has a default, read as what is needed. -/
def field {α : Type} (fields : List (String × Setting)) (name expected : String)
    (read : Setting → Option α) (default : α) : Except SettingsFault α :=
  match fields.lookup name with
  | none => .ok default
  | some setting =>
    match read setting with
    | some value => .ok value
    | none => .error (.mismatch name expected)

def optionalText? : Setting → Option (Option String)
  | .absent => some none
  | setting => setting.toText?.map some

def generatorFields : List String :=
  ["compress_paths", "base_package_name", "enum_package_name", "base_import_path", "caller_name",
    "wrapper_types", "annotate_schema_paths", "tag_ledger"]

def groupFields (fields : List (String × Setting)) (name : String) (names : List String) :
    Except SettingsFault (List (String × Setting)) :=
  field fields name "a map" (Setting.fields? names) []

def readGenerator (fields : List (String × Setting)) : Except SettingsFault Config := do
  let default : Config := {}
  let flag (name : String) (default : Bool) :=
    field fields name "a boolean" Setting.toFlag? default
  let text (name : String) (default : String) :=
    field fields name "a string" Setting.toText? default
  return {
    compressPaths := ← flag "compress_paths" default.compressPaths
    basePackage := ← text "base_package_name" default.basePackage
    enumPackageName := ← text "enum_package_name" default.enumPackageName
    baseImportPath := ← text "base_import_path" default.baseImportPath
    callerName := ← text "caller_name" default.callerName
    wrapperTypes := ← flag "wrapper_types" default.wrapperTypes
    annotateSchemaPaths := ← flag "annotate_schema_paths" default.annotateSchemaPaths
    tagLedger := ← field fields "tag_ledger" "a string" optionalText? default.tagLedger }

def readSources (fields : List (String × Setting)) : Except SettingsFault Sources := do
  let texts (name : String) := field fields name "a sequence" Setting.toTexts? []
  return { yangFiles := ← texts "yang_files", includePaths := ← texts "include_paths" }

def ofSetting (setting : Setting) : Except SettingsFault Settings := do
  let default : Settings := {}
  let fields := setting.entries
  let output ← groupFields fields "output" ["dir"]
  return {
    generator := ← readGenerator (← groupFields fields "generator" generatorFields)
    sources := ← readSources (← groupFields fields "sources" ["yang_files", "include_paths"])
    outputDir := ← field output "dir" "a string" Setting.toText? default.outputDir }

end Settings

end YangToProto

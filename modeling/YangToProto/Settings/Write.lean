import YangToProto.Settings.Decode
import YangToProto.Toml.Quoted

/-!
# Writing settings

The settings of a run are written as TOML, one section for each group with a blank line between
sections. The text can be loaded again.
-/

namespace YangToProto

namespace Toml

def line (key value : String) : String := key ++ " = " ++ value ++ "\n"

def flagValue (value : Bool) : String := if value then "true" else "false"

/-- A list of texts as a value. Two texts or more stand on lines of their own. -/
def textsValue (values : List String) : String :=
  match values with
  | [] => "[]"
  | [value] => "[" ++ quote value ++ "]"
  | _ => "[\n" ++ String.join (values.map fun value => "    " ++ quote value ++ ",\n") ++ "]"

def block (name : String) (lines : List String) : String :=
  "[" ++ name ++ "]\n" ++ String.join lines

end Toml

namespace Settings

def generatorSection (config : Config) : String :=
  Toml.block "generator" <|
    [Toml.line "compress_paths" (Toml.flagValue config.compressPaths),
      Toml.line "base_package_name" (Toml.quote config.basePackage),
      Toml.line "enum_package_name" (Toml.quote config.enumPackageName),
      Toml.line "base_import_path" (Toml.quote config.baseImportPath),
      Toml.line "caller_name" (Toml.quote config.callerName),
      Toml.line "wrapper_types" (Toml.flagValue config.wrapperTypes),
      Toml.line "annotate_schema_paths" (Toml.flagValue config.annotateSchemaPaths)] ++
    config.tagLedger.toList.map fun path => Toml.line "tag_ledger" (Toml.quote path)

def sourcesSection (sources : Sources) : String :=
  Toml.block "sources"
    [Toml.line "yang_files" (Toml.textsValue sources.yangFiles),
      Toml.line "include_paths" (Toml.textsValue sources.includePaths)]

def outputSection (dir : String) : String :=
  Toml.block "output" [Toml.line "dir" (Toml.quote dir)]

def toToml (settings : Settings) : String :=
  String.intercalate "\n" [generatorSection settings.generator, sourcesSection settings.sources,
    outputSection settings.outputDir]

end Settings

end YangToProto

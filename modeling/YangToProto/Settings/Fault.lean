import YangToProto.Files.Access
import YangToProto.Ini.Document
import YangToProto.Json.Fault
import YangToProto.Json5.Document
import YangToProto.Ron.Document
import YangToProto.Toml.Value
import YangToProto.Yaml.Value

/-!
# Faults of settings

Why the settings of a run cannot be determined.
-/

namespace YangToProto

inductive SettingsFault where
  /-- A file that was asked for is not there. -/
  | missing (path : String)
  /-- A file has a form in which no settings are written. -/
  | unknownFormat (path : String)
  | unreadable (path : String) (fault : FileFault)
  | toml (path : String) (fault : TomlFault)
  | json (path : String) (fault : JsonFault)
  | yaml (path : String) (fault : YamlFault)
  | ini (path : String) (fault : IniFault)
  | ron (path : String) (fault : RonFault)
  | json5 (path : String) (fault : Json5Fault)
  /-- A file holds a value that is no group of settings. -/
  | noGroup (path : String)
  /-- A setting has a value that cannot be read as what is needed. -/
  | mismatch (key expected : String)

def SettingsFault.message : SettingsFault → String
  | missing path => s!"configuration file \"{path}\" not found"
  | unknownFormat path => s!"configuration file \"{path}\" is not of a registered file format"
  | unreadable path fault => fault.message ++ " in " ++ path
  | toml path fault => fault.message ++ " in " ++ path
  | json path fault => fault.message ++ " in " ++ path
  | yaml path fault => fault.message ++ " in " ++ path
  | ini path fault => fault.message ++ " in " ++ path
  | ron path fault => fault.message ++ " in " ++ path
  | json5 path fault => fault.message ++ " in " ++ path
  | noGroup path => s!"invalid type, expected a map in {path}"
  | mismatch key expected => s!"invalid type, expected {expected} for key `{key}`"

end YangToProto

import YangToProto.Files.Access
import YangToProto.Files.Path
import YangToProto.Json.Scan
import YangToProto.Settings.Decode
import YangToProto.Settings.Environment
import YangToProto.Settings.Key
import YangToProto.Toml.Disguise
import YangToProto.Toml.Document
import YangToProto.Yaml.Document

/-!
# Loading settings

Settings are looked for in files at fixed places, in the user's file, in a file that was asked
for and in the environment. Each is laid on those before it.
-/

namespace YangToProto

inductive SettingsFormat where
  | toml
  | json
  | yaml
  | ini
  | ron
  | json5
deriving DecidableEq, Repr

namespace SettingsFormat

def extensions : SettingsFormat → List String
  | toml => ["toml"]
  | json => ["json"]
  | yaml => ["yaml", "yml"]
  | ini => ["ini"]
  | ron => ["ron"]
  | json5 => ["json5"]

def all : List SettingsFormat := [toml, json, yaml, ini, ron, json5]

def ofName? (name : String) : Option SettingsFormat :=
  (Path.extension? name).bind fun ext => all.find? (·.extensions.contains ext)

def groupEntries (path : String) : Setting → Except SettingsFault (List (String × Setting))
  | .group entries => .ok entries
  | _ => .error (.noGroup path)

/-- The setting in a text in a format. A text that gives nothing gives a group without entries. -/
def setting (path text : String) : SettingsFormat → Except SettingsFault Setting
  | toml =>
    match Toml.read text with
    | .ok entries =>
      match (Toml.table entries).reveal with
      | .ok value => .ok (.ofToml value)
      | .error fault => .error (.toml path fault)
    | .error fault => .error (.toml path fault)
  | json => ((Scan.run Scan.value text).map Setting.ofJson).mapError (.json path)
  | yaml => ((Yaml.read text).bind fun
      | some node => Setting.ofYaml node
      | none => .ok (.group [])).mapError (.yaml path)
  | ini => ((Ini.read text).map (Setting.group ∘ Setting.ofIni)).mapError (.ini path)
  | ron => ((Ron.read text).bind Setting.ofRon).mapError (.ron path)
  | json5 => ((Json5.read text).map Setting.ofJson).mapError (.json5 path)

def read (path text : String) (format : SettingsFormat) :
    Except SettingsFault (List (String × Setting)) := do
  groupEntries path (← format.setting path text)

end SettingsFormat

namespace Settings

def places : List String := ["protogen.toml", ".protogen.toml", "config/protogen.toml"]

def userFile (dir : String) : String := Path.join dir "yang-protogen/protogen.toml"

/-- The files in which a name can be completed to a path, with their formats. -/
def completions (path : String) : List (String × SettingsFormat) :=
  if (Path.fileName? path).isSome then
    SettingsFormat.all.flatMap fun format =>
      format.extensions.map fun extension => (Path.trimmed path ++ "." ++ extension, format)
  else []

variable {m : Type → Type} [Monad m] [FileAccess m]

def firstFile : List (String × SettingsFormat) → m (Option (String × SettingsFormat))
  | [] => return none
  | (path, format) :: rest => do
    if ← FileAccess.isFile path then return some (path, format) else firstFile rest

/-- The file that a path means: the one at the path, or one with an extension behind the path. -/
def findFile (path : String) : ExceptT SettingsFault m (String × SettingsFormat) := do
  if ← (FileAccess.isFile path : m Bool) then
    match (Path.fileName? path).bind SettingsFormat.ofName? with
    | some format => return (path, format)
    | none => throw (.unknownFormat path)
  else
    match ← (firstFile (completions path) : m _) with
    | some found => return found
    | none => throw (.missing path)

/-- The text that a path means, with the path of its file and its format. -/
def findText (path : String) : ExceptT SettingsFault m (String × SettingsFormat × String) := do
  let (path, format) ← findFile path
  let text ← (FileAccess.readText path).adapt (SettingsFault.unreadable path)
  return (path, format, text)

def requiredFile (path : String) : ExceptT SettingsFault m (List (String × Setting)) := do
  let (path, format, text) ← findText path
  format.read path text

/-- The entries of a file that there need not be. One that is there must be well-formed. -/
def optionalFile (path : String) : ExceptT SettingsFault m (List (String × Setting)) := do
  let found ← try some <$> findText path catch _ => pure none
  match found with
  | some (path, format, text) => format.read path text
  | none => return []

def userSource (dir : Option String) : ExceptT SettingsFault m (List (String × Setting)) := do
  match dir with
  | none => return []
  | some dir =>
    if ← (FileAccess.pathExists (userFile dir) : m Bool) then optionalFile (userFile dir)
    else return []

/-- Loads the settings. The user's directory and the file that was asked for may be missing. -/
def load (userDir path : Option String) (environment : Environment) :
    ExceptT SettingsFault m Settings := do
  let fixed ← places.mapM optionalFile
  let user ← userSource userDir
  let asked ← match path with
    | some path => requiredFile path
    | none => pure []
  let sources := fixed ++ [user, asked, environment.settings]
  Settings.ofSetting (sources.foldl Setting.addSource (.group []))

end Settings

end YangToProto

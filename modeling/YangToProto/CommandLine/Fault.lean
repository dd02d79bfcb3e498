import YangToProto.Files.Access
import YangToProto.Generation.LedgerFile
import YangToProto.Schema.Reading
import YangToProto.Settings.Fault

/-!
# Faults of commands

Why a command could not do what it was told. The message of a fault names what was being done and
then the causes.
-/

namespace YangToProto

inductive CommandFault where
  | settings (fault : SettingsFault)
  | loadLedger (path : String) (fault : Ledger.LoadFault)
  | readSchema (path : String) (fault : FileFault)
  | schema (path : String) (fault : SchemaFault)
  | generation (errors : GenerationErrors)
  | writeFiles (dir : String) (fault : FileFault)
  | saveLedger (path : String) (fault : FileFault)
  | readFiles (dir : String) (fault : FileFault)
  | writeSettings (path : String) (fault : FileFault)

namespace CommandFault

/-- A text that names an area and the fault in it, and the fault once more as its cause. -/
def caused (area cause : String) : String := s!"{area} error: {cause}: {cause}"

def schemaText : SchemaFault → String
  | .json fault => caused "JSON" fault.message
  | .schema error => "invalid schema tree: " ++ error.reason

def ledgerText : Ledger.LoadFault → String
  | .file fault => caused "IO" fault.message
  | .json fault => caused "JSON" fault.message

def message : CommandFault → String
  | settings fault => "failed to load configuration: " ++ fault.message
  | loadLedger path fault => s!"failed to load tag ledger {path}: " ++ ledgerText fault
  | readSchema path fault => s!"failed to read {path}: " ++ fault.message
  | schema path fault => s!"failed to parse schema tree {path}: " ++ schemaText fault
  | generation errors => errors.report
  | writeFiles dir fault => s!"failed to write to {dir}: " ++ caused "IO" fault.message
  | saveLedger path fault => s!"failed to save tag ledger {path}: " ++ caused "IO" fault.message
  | readFiles dir fault => s!"failed to read {dir}: " ++ caused "IO" fault.message
  | writeSettings path fault => s!"failed to write {path}: " ++ fault.message

end CommandFault

end YangToProto

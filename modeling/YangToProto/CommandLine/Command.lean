import YangToProto.CommandLine.Arguments
import YangToProto.CommandLine.Fault
import YangToProto.Generation.OnDisk
import YangToProto.Generation.Run
import YangToProto.Settings.Load
import YangToProto.Settings.Write

/-!
# Commands

What each command does with its files, and the report that it prints. A report tells whether a
problem was found; a command that could not do its work gives a fault instead.
-/

namespace YangToProto

structure CommandReport where
  text : String
  isFine : Bool
deriving DecidableEq, Repr

namespace CommandReport

def driftText (drift : FileDrift) : String :=
  match drift.status with
  | .unchanged => s!"  ✅ {drift.path}\n"
  | .missing => s!"  ❌ {drift.path} - missing\n"
  | .changed added removed =>
    s!"  ❌ {drift.path} - {added} line(s) added, {removed} removed\n" ++ drift.diff

def ofDrifts (drifts : List FileDrift) : CommandReport :=
  let drifted := (drifts.filter (·.isDrifted)).length
  let verdict :=
    if drifted = 0 then s!"✅ All {drifts.length} file(s) up to date\n"
    else s!"❌ {drifted} of {drifts.length} file(s) out of date\n"
  ⟨String.join (drifts.map driftText) ++ "\n" ++ verdict, drifted = 0⟩

def ofWritten (dir : String) (paths : List String) : CommandReport :=
  let lines := paths.map fun path => s!"  📄 {path}\n"
  ⟨String.join lines ++ s!"✅ Generated {paths.length} file(s) in {dir}\n", true⟩

end CommandReport

namespace SchemaOptions

/-- The generator's settings as the options of a command change them. -/
def generator (options : SchemaOptions) (settings : Settings) : Config :=
  let base := settings.generator
  { base with compressPaths := base.compressPaths || options.compress }

def outputDir (options : SchemaOptions) (settings : Settings) : String :=
  options.out.getD settings.outputDir

end SchemaOptions

namespace Command

variable {m : Type → Type} [Monad m] [FileAccess m]

/-- The ledger that some settings name. Without one it is empty. -/
def loadLedger (config : Config) : ExceptT CommandFault m Ledger :=
  match config.tagLedger with
  | some path => (Ledger.load path).adapt (CommandFault.loadLedger path)
  | none => return .empty

/-- Saves a ledger if some settings name a file for it. -/
def saveLedger (config : Config) (ledger : Ledger) : ExceptT CommandFault m Unit :=
  match config.tagLedger with
  | some path => (ledger.save path).adapt (CommandFault.saveLedger path)
  | none => return

def readSchema (path : String) : ExceptT CommandFault m Tree := do
  let text ← (FileAccess.readText path).adapt (CommandFault.readSchema path)
  match Tree.read text with
  | .ok tree => return tree
  | .error fault => throw (.schema path fault)

def generated (config : Config) (sources : Sources) (input : String) :
    ExceptT CommandFault m (Output × Ledger) := do
  let ledger ← loadLedger config
  let tree ← readSchema input
  match tree.generate config sources ledger with
  | (.ok output, ledger) => return (output, ledger)
  | (.error errors, _) => throw (.generation errors)

def runGenerate (settings : Settings) (options : SchemaOptions) :
    ExceptT CommandFault m CommandReport := do
  let config := options.generator settings
  let dir := options.outputDir settings
  let (output, ledger) ← generated config settings.sources options.input
  let paths ← (output.writeTo dir).adapt (CommandFault.writeFiles dir)
  saveLedger config ledger
  return .ofWritten dir paths

def runCheck (settings : Settings) (options : SchemaOptions) :
    ExceptT CommandFault m CommandReport := do
  let dir := options.outputDir settings
  let (output, _) ← generated (options.generator settings) settings.sources options.input
  return .ofDrifts (← (output.drift dir).adapt (CommandFault.readFiles dir))

def runConfig (settings : Settings) (output : Option String) :
    ExceptT CommandFault m CommandReport := do
  match output with
  | none => return ⟨settings.toToml, true⟩
  | some path =>
    (FileAccess.writeText path settings.toToml).adapt (CommandFault.writeSettings path)
    return ⟨s!"✅ Configuration written to {path}\n", true⟩

def run (settings : Settings) : Command → ExceptT CommandFault m CommandReport
  | generate options => runGenerate settings options
  | check options => runCheck settings options
  | config output => runConfig settings output

end Command

end YangToProto

import YangToProto.CommandLine.Command

/-!
# The command line

A run of the program: its arguments and its environment say what is done, and it ends with an
exit code and two texts. The code is 0 if all is well, 1 if a command failed or found a problem,
and 2 if the arguments are wrong.
-/

namespace YangToProto

structure Exit where
  code : UInt32
  /-- The text for the user. -/
  output : String
  /-- The text about what went wrong. -/
  errors : String
deriving DecidableEq, Repr

structure Surroundings where
  /-- The directory for the settings files of the user's programs. -/
  userDir : Option String
  environment : Environment

namespace CommandLine

def usage : String := String.join [
  "Generate Protocol Buffer definitions from YANG schema trees\n\n",
  "Usage: yang-protogen [OPTIONS] <COMMAND>\n\n",
  "Commands:\n",
  "  generate  Generate one .proto file per package\n",
  "  check     Regenerate in memory and compare with files on disk\n",
  "  config    Show the effective configuration\n",
  "  help      Print this message or the help of the given subcommand(s)\n\n",
  "Options:\n",
  "  -c, --config <CONFIG>  Configuration file, layered over protogen.toml and the environment\n",
  "  -i, --input <INPUT>    Schema tree in JSON form (generate, check)\n",
  "  -o, --out <OUT>        Output directory (generate, check; overrides [output].dir)\n",
  "      --compress         Enable path compression (generate, check)\n",
  "  -o, --output <OUTPUT>  Write to this file instead of stdout (config)\n",
  "  -h, --help             Print help\n",
  "  -V, --version          Print version\n"]

def version : String := "yang-protogen 0.1.0\n"

def exitOf : Stop → Exit
  | .help => ⟨0, usage, ""⟩
  | .version => ⟨0, version, ""⟩
  | .misuse what =>
    ⟨2, "", "error: " ++ what.message ++ "\n\nFor more information, try '--help'.\n"⟩

variable {m : Type → Type} [Monad m] [FileAccess m]

def invoke (surroundings : Surroundings) (invocation : Invocation) :
    ExceptT CommandFault m CommandReport := do
  let settings ← (Settings.load surroundings.userDir invocation.settingsFile
    surroundings.environment).adapt CommandFault.settings
  invocation.command.run settings

def run (surroundings : Surroundings) (arguments : List String) : m Exit := do
  match Invocation.ofArguments arguments with
  | .error stop => return exitOf stop
  | .ok invocation =>
    match ← (invoke surroundings invocation).run with
    | .ok report => return ⟨if report.isFine then 0 else 1, report.text, ""⟩
    | .error fault => return ⟨1, "", "Error: " ++ fault.message ++ "\n"⟩

end CommandLine

end YangToProto

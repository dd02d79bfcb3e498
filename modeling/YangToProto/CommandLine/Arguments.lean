/-!
# Command-line arguments

The arguments name a command with its options. An option is written with its long name or with
one letter, and its value follows as a word of its own, behind an equals sign or right behind the
letter. Arguments are read from left to right and the first thing that is wrong stops, but a
value that is a word of its own is looked at only when the next option comes.
-/

namespace YangToProto

inductive CommandName where
  | generate
  | check
  | config
deriving DecidableEq, Repr

inductive ValueOption where
  | config
  | input
  | out
  | output
deriving DecidableEq, Repr

inductive Flag where
  | compress
  | help
  | version
deriving DecidableEq, Repr

inductive Switch where
  | valued (option : ValueOption)
  | flag (raised : Flag)
deriving DecidableEq, Repr

inductive Misuse where
  | unknownOption (word : String)
  | unexpectedWord (word : String)
  | missingValue (option : ValueOption)
  | unneededValue (word : String)
  | repeatedOption (name : String)
  | emptyPath (option : ValueOption)
  | noCommand
  | noInput
deriving DecidableEq, Repr

inductive Stop where
  | help
  | version
  | misuse (what : Misuse)
deriving DecidableEq, Repr

namespace CommandName

def word : CommandName → String
  | generate => "generate"
  | check => "check"
  | config => "config"

def ofWord? (text : String) : Option CommandName :=
  [generate, check, config].find? (·.word == text)

end CommandName

namespace ValueOption

def name : ValueOption → String
  | config => "config"
  | input => "input"
  | out => "out"
  | output => "output"

def letter : ValueOption → Char
  | config => 'c'
  | input => 'i'
  | out => 'o'
  | output => 'o'

/-- Whether the value of an option is a path, which cannot be empty. -/
def isPath : ValueOption → Bool
  | input => true
  | out => true
  | _ => false

end ValueOption

namespace Flag

def name : Flag → String
  | compress => "compress"
  | help => "help"
  | version => "version"

def letter? : Flag → Option Char
  | compress => none
  | help => some 'h'
  | version => some 'V'

end Flag

namespace Switch

/-- The options in front of a command, or those behind it. -/
def all : Option CommandName → List Switch
  | none => [valued .config, flag .help, flag .version]
  | some .config => [valued .config, valued .output, flag .help]
  | some _ => [valued .config, valued .input, valued .out, flag .compress, flag .help]

def name : Switch → String
  | valued option => option.name
  | flag raised => raised.name

def letter? : Switch → Option Char
  | valued option => some option.letter
  | flag raised => raised.letter?

end Switch

/-- An option whose value is not settled: it has yet to come, or to be looked at. -/
structure PendingOption where
  option : ValueOption
  value : Option String
deriving DecidableEq, Repr

/-- The options read so far, in front of a command or behind it. -/
structure ReadOptions where
  values : List (ValueOption × String) := []
  compress : Bool := false
  pending : Option PendingOption := none
deriving DecidableEq, Repr

namespace ReadOptions

def value? (read : ReadOptions) (option : ValueOption) : Option String := read.values.lookup option

def store (option : ValueOption) (value : String) (read : ReadOptions) :
    Except Stop ReadOptions :=
  if (read.value? option).isSome then .error (.misuse (.repeatedOption option.name))
  else if option.isPath && value.isEmpty then .error (.misuse (.emptyPath option))
  else .ok { read with values := read.values ++ [(option, value)] }

def settle (read : ReadOptions) : Except Stop ReadOptions :=
  match read.pending with
  | none => .ok read
  | some ⟨option, none⟩ => .error (.misuse (.missingValue option))
  | some ⟨option, some value⟩ => store option value { read with pending := none }

def await (option : ValueOption) (read : ReadOptions) : Except Stop ReadOptions := do
  return { (← read.settle) with pending := some ⟨option, none⟩ }

def attach (option : ValueOption) (value : String) (read : ReadOptions) :
    Except Stop ReadOptions := do
  store option value (← read.settle)

def raise (flag : Flag) (read : ReadOptions) : Except Stop ReadOptions := do
  let read ← read.settle
  match flag with
  | .help => throw .help
  | .version => throw .version
  | .compress =>
    if read.compress then throw (.misuse (.repeatedOption flag.name))
    else return { read with compress := true }

/-- Reads an option by its long name. The text behind an equals sign is its value. -/
def long (command : Option CommandName) (word : String) (name : List Char)
    (value : Option (List Char)) (read : ReadOptions) : Except Stop ReadOptions :=
  match (Switch.all command).find? (·.name.toList == name), value with
  | none, _ => .error (.misuse (.unknownOption word))
  | some (.valued option), some text => attach option (String.ofList text) read
  | some (.valued option), none => await option read
  | some (.flag _), some _ => .error (.misuse (.unneededValue word))
  | some (.flag raised), none => raise raised read

/-- Reads options by their letters. What follows the letter of an option with a value is the
value. -/
def letters (command : Option CommandName) (word : String) (read : ReadOptions) :
    List Char → Except Stop ReadOptions
  | [] => .ok read
  | letter :: rest =>
    match (Switch.all command).find? (·.letter? == some letter), rest with
    | none, _ => .error (.misuse (.unknownOption word))
    | some (.valued option), [] => await option read
    | some (.valued option), '=' :: text => attach option (String.ofList text) read
    | some (.valued option), text => attach option (String.ofList text) read
    | some (.flag raised), rest => do letters command word (← raise raised read) rest

/-- Reads a word that is an option; any other word is out of place. -/
def option (command : Option CommandName) (word : String) (read : ReadOptions) :
    Except Stop ReadOptions :=
  match word.toList with
  | '-' :: '-' :: text =>
    let name := text.takeWhile (· != '=')
    long command word name (text.dropWhile (· != '=')).tail? read
  | '-' :: letter :: rest => letters command word read (letter :: rest)
  | _ => .error (.misuse (.unexpectedWord word))

/-- Whether a word can be the value of an option before it. A lone dash can. -/
def isValue (word : String) : Bool :=
  match word.toList with
  | '-' :: _ :: _ => false
  | _ => true

/-- Reads words up to one that names a command, if `isCommand` says that it does. Two dashes end
the options, and no word may follow them. Gives that word and those behind it. -/
def words (command : Option CommandName) (isCommand : String → Bool) (read : ReadOptions) :
    List String → Except Stop (ReadOptions × List String)
  | [] => .ok (read, [])
  | word :: rest =>
    match read.pending with
    | some ⟨option, none⟩ =>
      if isValue word then
        words command isCommand { read with pending := some ⟨option, some word⟩ } rest
      else .error (.misuse (.missingValue option))
    | _ =>
      if isCommand word then .ok (read, word :: rest)
      else if word == "--" then
        match rest with
        | [] => .ok (read, [])
        | next :: _ => .error (.misuse (.unexpectedWord next))
      else do words command isCommand (← option command word read) rest

end ReadOptions

structure SchemaOptions where
  input : String
  /-- The output directory, if it is not the one that the settings tell. -/
  out : Option String
  compress : Bool
deriving DecidableEq, Repr

inductive Command where
  /-- Generates files. -/
  | generate (options : SchemaOptions)
  /-- Compares the generated files with those on disk. -/
  | check (options : SchemaOptions)
  /-- Shows the settings or writes them to a file. -/
  | config (output : Option String)
deriving DecidableEq, Repr

structure Invocation where
  settingsFile : Option String
  command : Command
deriving DecidableEq, Repr

namespace Invocation

def schemaOptions (read : ReadOptions) : Except Stop SchemaOptions :=
  match read.value? .input with
  | some input => .ok ⟨input, read.value? .out, read.compress⟩
  | none => .error (.misuse .noInput)

def commandWith (name : CommandName) (read : ReadOptions) : Except Stop Command :=
  match name with
  | .generate => (schemaOptions read).map .generate
  | .check => (schemaOptions read).map .check
  | .config => .ok (.config (read.value? .output))

def helpWord : String := "help"

/-- Reads what stands behind the word that asks for help: at most the name of a command. -/
def readHelp : List String → Stop
  | [] => .help
  | [name] =>
    if name == helpWord || (CommandName.ofWord? name).isSome then .help
    else .misuse (.unexpectedWord name)
  | name :: next :: _ =>
    .misuse (.unexpectedWord (if (CommandName.ofWord? name).isSome then next else name))

def isCommandWord (word : String) : Bool := word == helpWord || (CommandName.ofWord? word).isSome

/-- The use of the program that some arguments ask for. A settings file behind the command counts
before one in front of it. -/
def ofArguments (arguments : List String) : Except Stop Invocation := do
  let (front, rest) ← ReadOptions.words none isCommandWord {} arguments
  match rest with
  | [] =>
    let _ ← front.settle
    throw (.misuse .noCommand)
  | word :: rest =>
    match CommandName.ofWord? word with
    | none => throw (readHelp rest)
    | some name =>
      let (back, _) ← ReadOptions.words (some name) (fun _ => false) {} rest
      let back ← back.settle
      let command ← commandWith name back
      let front ← front.settle
      return ⟨(back.value? .config).or (front.value? .config), command⟩

end Invocation

namespace Misuse

def message : Misuse → String
  | unknownOption word => s!"unexpected argument '{word}' found"
  | unexpectedWord word => s!"unexpected argument '{word}' found"
  | missingValue option => s!"a value is required for '--{option.name}' but none was supplied"
  | unneededValue word => s!"unexpected value in '{word}' found; no more were expected"
  | repeatedOption name => s!"the argument '--{name}' cannot be used multiple times"
  | emptyPath option => s!"a value is required for '--{option.name}' but none was supplied"
  | noCommand => "a command is required but none was given"
  | noInput => "the required argument '--input' was not provided"

end Misuse

end YangToProto

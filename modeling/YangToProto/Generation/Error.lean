/-!
# Generation errors

What can go wrong while messages are made from a schema. Each error names the schema path or the
enum that it concerns, so that a list of them can be printed one per line. Errors are collected:
one malformed field never hides its siblings.
-/

namespace YangToProto

inductive GenerationError where
  | nameResolution (path reason : String)
  | unsupportedType (path typeName : String)
  | keyType (list key typeName : String)
  | unknownFieldKind (message field : String)
  | unknownEnumShape (name : String)
  | invalidDefault (path default : String)
  | unimplemented (text : String)
  | moduleMessage (path : String)
  | missingKey (list key : String)
  | enumValueRange (path member : String) (value : Int)
  | identityCollision (base first second symbol : String)
deriving DecidableEq, Repr

namespace GenerationError

def message : GenerationError → String
  | nameResolution path reason => s!"could not resolve name for {path}: {reason}"
  | unsupportedType path typeName => s!"unsupported type {typeName} for {path}"
  | keyType list key typeName => s!"list {list} has key {key} with non-scalar type {typeName}"
  | unknownFieldKind message field => s!"unknown field kind in message {message}, field {field}"
  | unknownEnumShape name => s!"unknown shape of enumerated type {name}"
  | invalidDefault path default =>
    s!"enumeration {path} specified a default - {default} - that was not a valid value"
  | unimplemented text => s!"unimplemented: {text}"
  | moduleMessage path =>
    s!"schema element {path} does not have a parent, messages are not generated for modules"
  | missingKey list key => s!"list {list} included a key {key} that did not exist"
  | enumValueRange path member value =>
    s!"enumeration {path} member {member} has value {value}, which does not fit a proto3 enum"
  | identityCollision base first second symbol =>
    s!"identity base {base} has identities {first} and {second} that both map to {symbol}"

end GenerationError

abbrev GenerationErrors := List GenerationError

namespace GenerationErrors

def text (errors : GenerationErrors) : String :=
  String.intercalate "\n" (errors.map GenerationError.message)

def report (errors : GenerationErrors) : String := s!"generation failed:\n{errors.text}"

/-- A value that counts only if nothing went wrong. -/
def settle {α : Type} (errors : GenerationErrors) (value : α) : Except GenerationErrors α :=
  if errors.isEmpty then .ok value else .error errors

/-- The values of a list of outcomes, or all errors among them in order. -/
def gather {α : Type} : List (Except GenerationErrors α) → Except GenerationErrors (List α)
  | [] => .ok []
  | .ok value :: rest => (gather rest).map (value :: ·)
  | .error errors :: rest =>
    match gather rest with
    | .ok _ => .error errors
    | .error more => .error (errors ++ more)

end GenerationErrors

end YangToProto

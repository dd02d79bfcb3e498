import YangToProto.Generation.Registry
import YangToProto.Proto.Record

/-!
# Numbers of enum values

A proto enum starts with the value 0. It stands for the declared default of an enumeration and
for an unset value otherwise; every other member comes one above its ordinal. Identities have no
ordinals and are numbered from 1 in the order of their symbols.
-/

namespace YangToProto

/-- The symbol of 0 when there is no default. -/
def unsetSymbol : String := "UNSET"

/-- Whether a number fits the 32 signed bits of an enum value. -/
def fitsEnumValue (number : Int) : Bool := -2147483648 ≤ number && number ≤ 2147483647

namespace EnumMember

/-- The table with the members that are not the default, each one above its ordinal. The first
member that does not fit, or whose number is taken, stops. -/
def addAll (path : String) (default : Option String) (table : EnumTable) :
    List EnumMember → Except GenerationError EnumTable
  | [] => .ok table
  | member :: rest =>
    if default == some member.name then addAll path default table rest
    else
      let number := member.value.toInt + 1
      let symbol := Identifier.sanitize member.name
      if fitsEnumValue number then
        match table.find? number with
        | some taken => .error (.unimplemented
            s!"enumeration {path} maps both {taken} and {symbol} to value {number}")
        | none => addAll path default (table.insert number symbol) rest
      else .error (.enumValueRange path member.name member.value.toInt)

end EnumMember

def enumerationTable (path : String) (members : List EnumMember) :
    Option String → Except GenerationError EnumTable
  | none => EnumMember.addAll path none (SortedMap.empty.insert 0 unsetSymbol) members
  | some default =>
    if members.any (·.name == default) then
      EnumMember.addAll path (some default)
        (SortedMap.empty.insert 0 (Identifier.sanitize default)) members
    else .error (.invalidDefault path default)

def LeafType.enumerationValues (path : String) (type : LeafType) :
    Except GenerationError EnumTable :=
  match type.kind with
  | .enumeration members => enumerationTable path members type.default
  | _ => .error (.unknownEnumShape path)

namespace IdentityBase

/-- A list of symbol and name pairs in order, with one more pair in its place. -/
def placePair (pair : String × String) : List (String × String) → List (String × String)
  | [] => [pair]
  | other :: rest =>
    match (compare pair.1 other.1).then (compare pair.2 other.2) with
    | .gt => other :: placePair pair rest
    | _ => pair :: other :: rest

/-- The list without pairs that repeat the name of the one before. -/
def dropRepeated : List (String × String) → List (String × String)
  | [] => []
  | [pair] => [pair]
  | first :: second :: rest =>
    if first.2 == second.2 then dropRepeated (first :: rest)
    else first :: dropRepeated (second :: rest)

def collision? : List (String × String) → Option ((String × String) × (String × String))
  | [] => none
  | [_] => none
  | first :: second :: rest =>
    if first.1 == second.1 then some (first, second) else collision? (second :: rest)

/-- The identities with their symbols, in order of the symbols and each once. -/
def symbols (base : IdentityBase) : List (String × String) :=
  dropRepeated
    ((base.values.map fun name => (Identifier.sanitize name, name)).foldr placePair [])

def number (table : EnumTable) (start : Int) : List String → EnumTable
  | [] => table
  | symbol :: rest => number (table.insert start symbol) (start + 1) rest

/-- The values of an identity base. Two identities must not have one symbol. -/
def enumValues (base : IdentityBase) : Except GenerationError EnumTable :=
  match collision? base.symbols with
  | some (first, second) => .error (.identityCollision base.name first.2 second.2 first.1)
  | none => .ok (number (SortedMap.empty.insert 0 unsetSymbol) 1 (base.symbols.map (·.1)))

end IdentityBase

namespace SharedEnum

def build (definition : SharedEnum) : Except GenerationError PackageEnum :=
  let type := definition.type
  match type.kind with
  | .identityref base => do
    return ⟨definition.name, s!"YANG identity {base.name}", ← base.enumValues⟩
  | .enumeration _ =>
    if type.isInlineEnum then .error (.unknownEnumShape definition.name)
    else do
      return ⟨definition.name, s!"YANG typedef {type.name}",
        ← type.enumerationValues definition.sourcePath⟩
  | .union _ =>
    if type.containsEnum then .error (.unimplemented
      s!"support for multiple enumerations within a union for {definition.name}")
    else .error (.unknownEnumShape definition.name)
  | .scalar _ => .error (.unknownEnumShape definition.name)

end SharedEnum

namespace Registry

def buildSharedEnums (registry : Registry) : Except GenerationErrors (List PackageEnum) :=
  GenerationErrors.gather
    (registry.sharedEnums.values.map fun definition =>
      definition.build.mapError fun error => [error])

end Registry

end YangToProto

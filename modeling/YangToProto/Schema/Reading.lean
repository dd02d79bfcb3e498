import YangToProto.Json.Scan
import YangToProto.Schema.Tree

/-!
# Reading schemas

A declared schema is read from a JSON text. A node is an object, or an array of its fields in
order; unknown members are skipped. The members of a type are kept until the type's own object
has ended, because its kind may come last and decides which of them count.
-/

namespace YangToProto

namespace Json

def wrongType {α : Type} (found : Json) (expected : String) : Except JsonFault α :=
  .error (.misfit (.invalidType (.ofJson found) expected))

def asString : Json → Except JsonFault String
  | string text => .ok text
  | other => other.wrongType "a string"

def asOptionalString : Json → Except JsonFault (Option String)
  | null => .ok none
  | other => other.asString.map some

def asInt64 : Json → Except JsonFault Int64
  | number (.integer value) =>
    if value ≤ Int64.maxValue.toInt then .ok (Int64.ofInt value)
    else .error (.misfit (.invalidValue (.number (.integer value)) "i64"))
  | other => other.wrongType "i64"

def asList {α : Type} (item : Json → Except JsonFault α) : Json → Except JsonFault (List α)
  | array items => items.mapM item
  | other => other.wrongType "a sequence"

/-- The value read from the only member of a given name, which must not be repeated. -/
def uniqueMember {α : Type} (name : String) (read : Json → Except JsonFault α)
    (before : Option α) : List (String × Json) → Except JsonFault α
  | [] =>
    match before with
    | some value => .ok value
    | none => .error (.misfit (.missingField name))
  | (other, value) :: rest =>
    if other == name then
      if before.isSome then .error (.misfit (.duplicateField name))
      else do uniqueMember name read (some (← read value)) rest
    else uniqueMember name read before rest

def once {α : Type} (name : String) (before : Option α) (read : Json → Except JsonFault α)
    (value : Json) : Except JsonFault (Option α) :=
  if before.isSome then .error (.misfit (.duplicateField name)) else (read value).map some

def required {α : Type} (name : String) : Option α → Except JsonFault α
  | some value => .ok value
  | none => .error (.misfit (.missingField name))

end Json

/-! ## Types -/

namespace EnumMember

/-- What is known of an enumeration member while its object is read. -/
structure Partial where
  name : Option String := none
  value : Option Int64 := none

def Partial.add (known : Partial) : String × Json → Except JsonFault Partial
  | ("name", value) => do
    return { known with name := ← Json.once "name" known.name Json.asString value }
  | ("value", value) => do
    return { known with value := ← Json.once "value" known.value Json.asInt64 value }
  | _ => .ok known

def ofJson : Json → Except JsonFault EnumMember
  | .object members => do
    let known ← members.foldlM Partial.add {}
    return ⟨← Json.required "name" known.name, ← Json.required "value" known.value⟩
  | .array [] => .error (.misfit (.invalidLength 0 "struct EnumMember with 2 elements"))
  | .array [name] => do
    let _ ← name.asString
    .error (.misfit (.invalidLength 1 "struct EnumMember with 2 elements"))
  | .array (name :: value :: surplus) => do
    let member : EnumMember := ⟨← name.asString, ← value.asInt64⟩
    if surplus.isEmpty then return member
    else .error (.misfit (.invalidLength (2 + surplus.length) "2 elements in sequence"))
  | other => other.wrongType "struct EnumMember"

end EnumMember

namespace IdentityBase

/-- What is known of an identity base while its object is read. -/
structure Partial where
  name : Option String := none
  module : Option (Option String) := none
  values : Option (List String) := none

def Partial.add (known : Partial) : String × Json → Except JsonFault Partial
  | ("name", value) => do
    return { known with name := ← Json.once "name" known.name Json.asString value }
  | ("module", value) => do
    return { known with module := ← Json.once "module" known.module Json.asOptionalString value }
  | ("values", value) => do
    return { known with
      values := ← Json.once "values" known.values (Json.asList Json.asString) value }
  | _ => .ok known

def ofJson : Json → Except JsonFault IdentityBase
  | .object members => do
    let known ← members.foldlM Partial.add {}
    return ⟨← Json.required "name" known.name, known.module.getD none, known.values.getD []⟩
  | .array [] => .error (.misfit (.invalidLength 0 "struct IdentityBase with 3 elements"))
  | .array [name] => return ⟨← name.asString, none, []⟩
  | .array [name, module] => return ⟨← name.asString, ← module.asOptionalString, []⟩
  | .array (name :: module :: values :: surplus) => do
    let base : IdentityBase :=
      ⟨← name.asString, ← module.asOptionalString, ← values.asList Json.asString⟩
    if surplus.isEmpty then return base
    else .error (.misfit (.invalidLength (3 + surplus.length) "3 elements in sequence"))
  | other => other.wrongType "struct IdentityBase"

end IdentityBase

inductive KindTag where
  | scalar (scalar : Scalar)
  | enumeration
  | identityref
  | union

namespace KindTag

def all : List KindTag := Scalar.all.map scalar ++ [enumeration, identityref, union]

def named : List (String × KindTag) := TypeKind.labels.zip all

def ofJson : Json → Except JsonFault KindTag
  | .string label =>
    match named.find? fun entry => entry.1 == label with
    | some (_, tag) => .ok tag
    | none => .error (.misfit (.unknownVariant label TypeKind.labels))
  | .number (.integer index) =>
    if index < 0 then Json.wrongType (.ofInt index) "variant identifier"
    else
      match all[index.toNat]? with
      | some tag => .ok tag
      | none => .error (.misfit
          (.invalidValue (.number (.integer index)) s!"variant index 0 <= i < {all.length}"))
  | other => other.wrongType "variant identifier"

end KindTag

namespace LeafType

/-- What is known of a type while its object is read. -/
structure Partial where
  name : Option String := none
  default : Option (Option String) := none
  /-- The other members, the last one first. -/
  others : List (String × Json) := []

namespace Partial

/-- The type, once its object has ended. The members of unions are read by a given reader. -/
def finish (types : Json → Except JsonFault (List LeafType)) (known : Partial) :
    Except JsonFault LeafType := do
  let name ← Json.required "name" known.name
  let others := known.others.reverse
  let kind ←
    match ← Json.uniqueMember "kind" KindTag.ofJson none others with
    | .scalar s => pure (.scalar s)
    | .enumeration => do
      let members ← Json.uniqueMember "members" (Json.asList EnumMember.ofJson) none others
      pure (.enumeration members)
    | .identityref => do
      pure (.identityref (← Json.uniqueMember "base" IdentityBase.ofJson none others))
    | .union => do pure (.union (← Json.uniqueMember "members" types none others))
  return ⟨name, kind, known.default.getD none⟩

/-- What is known once one more member of the object is read. -/
def add (known : Partial) : String × Json → Except JsonFault Partial
  | ("name", value) => do
    return { known with name := ← Json.once "name" known.name Json.asString value }
  | ("default", value) => do
    return { known with default := ← Json.once "default" known.default Json.asOptionalString value }
  | other => .ok { known with others := other :: known.others }

end Partial

def ofJson (depth : Nat) (value : Json) : Except JsonFault LeafType :=
  match depth, value with
  | depth + 1, .object members => do
    let known ← members.foldlM Partial.add {}
    known.finish (Json.asList (ofJson depth))
  | _, other => other.wrongType "struct TypeDescriptor"

def scan (rounds depth : Nat) : Scan LeafType := do
  let known ← Scan.expectMembers "struct TypeDescriptor" rounds depth
    (fun depth name (known : Partial) => do
      match name with
      | "name" =>
        return { known with
          name := ← Scan.once "name" known.name (Scan.expectString "a string") }
      | "default" =>
        return { known with
          default := ← Scan.once "default" known.default
            (Scan.expectOption (Scan.expectString "a string")) }
      | other =>
        Scan.colon
        return { known with others := (other, ← Scan.value rounds depth) :: known.others })
    {}
  match known.finish (Json.asList (ofJson depth)) with
  | .ok type => return type
  | .error fault => throw fault

def read (text : String) : Except JsonFault LeafType := Scan.run scan text

end LeafType

/-! ## Nodes -/

namespace NodeKind

def scanName : Scan NodeKind := do
  let label ← Scan.expectString "variant identifier"
  match ofLabel? label with
  | some kind => return kind
  | none => Scan.misfit (.unknownVariant label (all.map NodeKind.label))

/-- Takes a kind: its name, or an object whose only member has that name and is null. -/
def scan (depth : Nat) : Scan NodeKind := do
  match ← Scan.peek with
  | none => Scan.unfinished .value
  | some '"' => scanName
  | some '\x7b' =>
    if depth = 0 then Scan.malformed .tooDeep
    Scan.advance
    match ← Scan.peek with
    | none => Scan.unfinished .value
    | some '"' => pure ()
    | some _ => Scan.malformed .keyNotString
    let kind ← scanName
    Scan.colon
    match ← Scan.peek with
    | some 'n' =>
      Scan.advance
      Scan.letters ['u', 'l', 'l']
    | _ => Scan.wrongType "unit"
    match ← Scan.peek with
    | none => Scan.unfinished .object
    | some '\x7d' =>
      Scan.advance
      return kind
    | some _ => Scan.malformed .expectedValue
  | some _ => Scan.malformed .expectedValue

end NodeKind

namespace Node

/-- What is known of a node while it is read. -/
structure Partial where
  name : Option String := none
  kind : Option NodeKind := none
  key : Option (List String) := none
  type : Option (Option LeafType) := none
  children : Option (List Node) := none

def Partial.finish (known : Partial) : Except JsonFault Node := do
  return ⟨← Json.required "name" known.name, ← Json.required "kind" known.kind,
    known.key.getD [], known.type.getD none, known.children.getD []⟩

def scanNames (rounds depth : Nat) : Scan (List String) :=
  Scan.expectList rounds depth fun _ => Scan.expectString "a string"

def Partial.scan (rounds depth : Nat) (child : Scan Node) (name : String) (known : Partial) :
    Scan Partial := do
  match name with
  | "name" =>
    return { known with name := ← Scan.once "name" known.name (Scan.expectString "a string") }
  | "kind" =>
    return { known with kind := ← Scan.once "kind" known.kind (NodeKind.scan depth) }
  | "key" =>
    return { known with key := ← Scan.once "key" known.key (scanNames rounds depth) }
  | "type" =>
    return { known with
      type := ← Scan.once "type" known.type (Scan.expectOption (LeafType.scan rounds depth)) }
  | "children" =>
    return { known with
      children := ← Scan.once "children" known.children
        (Scan.expectList rounds depth fun _ => child) }
  | _ =>
    Scan.skipMember rounds
    return known

def tooShort {α : Type} (length : Nat) : Scan α :=
  Scan.misfit (.invalidLength length "struct NodeDef with 5 elements")

/-- Takes a node that is an array of its fields; fields from the key on may be left out. -/
def scanFields (rounds depth : Nat) (child : Scan Node) : Scan Node := do
  if !(← Scan.nextItem true) then tooShort 0
  let name ← Scan.expectString "a string"
  if !(← Scan.nextItem false) then tooShort 1
  let kind ← NodeKind.scan depth
  let mut node : Node := ⟨name, kind, [], none, []⟩
  if ← Scan.nextItem false then
    node := { node with key := ← scanNames rounds depth }
    if ← Scan.nextItem false then
      node := { node with type := ← Scan.expectOption (LeafType.scan rounds depth) }
      if ← Scan.nextItem false then
        node := { node with children := ← Scan.expectList rounds depth fun _ => child }
  Scan.endList
  return node

def scan (rounds : Nat) (depth : Nat) : Scan Node := do
  match depth with
  | 0 =>
    match ← Scan.peek with
    | some '[' => Scan.malformed .tooDeep
    | some '\x7b' => Scan.malformed .tooDeep
    | _ => Scan.wrongType "struct NodeDef"
  | depth + 1 =>
    let child : Scan Node :=
      match depth with
      | 0 => Scan.malformed .tooDeep
      | inside + 1 => scan rounds inside
    match ← Scan.peek with
    | some '[' =>
      Scan.advance
      scanFields rounds depth child
    | some '\x7b' =>
      Scan.advance
      let known ← Scan.members (Partial.scan rounds depth child) true {} rounds
      match known.finish with
      | .ok node => return node
      | .error fault => throw fault
    | _ => Scan.wrongType "struct NodeDef"

def read (text : String) : Except JsonFault Node := Scan.run scan text

end Node

inductive SchemaFault where
  | json (fault : JsonFault)
  | schema (error : SchemaError)

def Tree.read (text : String) : Except SchemaFault Tree :=
  match Node.read text with
  | .error fault => .error (.json fault)
  | .ok node => (Tree.ofNode node).mapError .schema

end YangToProto

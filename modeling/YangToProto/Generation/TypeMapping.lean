import YangToProto.Generation.Config
import YangToProto.Generation.Registry

/-!
# Types of fields

The type of a leaf becomes the type of a field. Scalars come from a table; an enumeration written
in place becomes an enum of the message; typedefs, identities and unions with an enumerated
member become shared enums. Any other union is the scalar that all its members share, and a
string if they differ. A key must not be such a string.
-/

namespace YangToProto

inductive MappedKind where
  | scalar
  | enum
  /-- A union of differing scalars, carried as a string. -/
  | union
deriving DecidableEq

structure MappedType where
  typeName : String
  kind : MappedKind
  /-- Import path of the package that the type stands in, if it stands in one. -/
  importPath : Option String
deriving DecidableEq

namespace MappedType

def scalar (typeName : String) : MappedType := ⟨typeName, .scalar, none⟩

end MappedType

namespace LeafType

def unsupported (leaf : Site) (typeName : String) : GenerationError :=
  .unsupportedType leaf.pathText typeName

/-- The entries found so far with one more, each once. -/
def addEntry (found : List String) (entry : String) : List String :=
  if found.contains entry then found else found ++ [entry]

mutual

def addScalars (table : ScalarTable) (leaf : Site) (found : List String) :
    LeafType → Except GenerationError (List String)
  | ⟨name, kind, _⟩ => addKindScalars table leaf found name kind

/-- The table entries found so far with that of one more kind, or those of its members if it is a
union. The first type without an entry stops. -/
def addKindScalars (table : ScalarTable) (leaf : Site)
    (found : List String) (name : String) : TypeKind → Except GenerationError (List String)
  | .scalar s =>
    match table.scalar? s with
    | some entry => .ok (addEntry found entry)
    | none => .error (unsupported leaf name)
  | .enumeration _ => .error (unsupported leaf name)
  | .identityref _ => .error (unsupported leaf name)
  | .union members => addAllScalars table leaf found members

/-- The table entries found so far with those of several more types. -/
def addAllScalars (table : ScalarTable) (leaf : Site) (found : List String) :
    List LeafType → Except GenerationError (List String)
  | [] => .ok found
  | type :: rest => do
    let found ← addScalars table leaf found type
    addAllScalars table leaf found rest

end

def mapUnion (table : ScalarTable) (leaf : Site) (type : LeafType) (members : List LeafType) :
    Except GenerationError MappedType := do
  match ← addAllScalars table leaf [] members with
  | [] => throw (unsupported leaf type.name)
  | [entry] => return .scalar entry
  | _ => return ⟨table.string, .union, none⟩

def mapShared (config : Config) (leaf : Site) (type : LeafType) : StateM Registry MappedType := do
  let name ← Registry.sharedEnumName leaf.pathText type
  return ⟨s!"{config.enumPackage}.{name}", .enum, some config.enumImport⟩

def resolve (config : Config) (table : ScalarTable) (leaf : Site) (type : LeafType) :
    Naming MappedType :=
  match type.kind with
  | .enumeration _ =>
    if type.isInlineEnum then return ⟨Identifier.pascalCase leaf.name, .enum, none⟩
    else mapShared config leaf type
  | .identityref _ => mapShared config leaf type
  | .union members =>
    if type.containsEnum then mapShared config leaf type
    else mapUnion table leaf type members
  | .scalar s =>
    match table.scalar? s with
    | some entry => return .scalar entry
    | none => throw (unsupported leaf type.name)

def mapValue (config : Config) (leaf : Site) (type : LeafType) : Naming MappedType :=
  type.resolve config config.valueTable leaf

/-- The type of the field of a key leaf: a scalar of the plain table or an enum. -/
def mapKey (config : Config) (leaf : Site) (type : LeafType) : Naming MappedType := do
  let mapped ← type.resolve config .plain leaf
  if mapped.kind == .union then
    throw (.keyType (pathText leaf.path.dropLast) leaf.name type.name)
  return mapped

end LeafType

end YangToProto

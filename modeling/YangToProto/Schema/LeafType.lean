/-!
# Types of leaves

A leaf has a named type. Its kind is one of the sixteen built-in scalars, an enumeration, a
reference to an identity base, or a union of further types. A type that goes by the name
`enumeration` is an enumeration written in place; under any other name it was declared once as a
typedef and may be shared.
-/

namespace YangToProto

/-- The scalar kinds, in the order in which they are numbered. -/
inductive Scalar where
  | string
  | boolean
  | empty
  | int8
  | int16
  | int32
  | int64
  | uint8
  | uint16
  | uint32
  | uint64
  | decimal64
  | binary
  | bits
  | instanceIdentifier
  | leafref
deriving DecidableEq, Repr, Inhabited

namespace Scalar

def all : List Scalar :=
  [string, boolean, empty, int8, int16, int32, int64, uint8, uint16, uint32, uint64, decimal64,
    binary, bits, instanceIdentifier, leafref]

def label : Scalar → String
  | string => "string"
  | boolean => "boolean"
  | empty => "empty"
  | int8 => "int8"
  | int16 => "int16"
  | int32 => "int32"
  | int64 => "int64"
  | uint8 => "uint8"
  | uint16 => "uint16"
  | uint32 => "uint32"
  | uint64 => "uint64"
  | decimal64 => "decimal64"
  | binary => "binary"
  | bits => "bits"
  | instanceIdentifier => "instance-identifier"
  | leafref => "leafref"

def ofLabel? (label : String) : Option Scalar := all.find? fun s => s.label == label

end Scalar

structure EnumMember where
  name : String
  value : Int64
deriving DecidableEq

/-- An identity base with the names of the identities derived from it. -/
structure IdentityBase where
  name : String
  module : Option String
  values : List String
deriving DecidableEq

mutual

inductive TypeKind where
  | scalar (scalar : Scalar)
  | enumeration (members : List EnumMember)
  | identityref (base : IdentityBase)
  | union (members : List LeafType)

/-- The type of a leaf or leaf-list, with the default value declared beside it. -/
structure LeafType where
  name : String
  kind : TypeKind
  default : Option String

end

instance : Inhabited TypeKind := ⟨.scalar .string⟩

instance : Inhabited LeafType := ⟨⟨"string", default, none⟩⟩

namespace TypeKind

def label : TypeKind → String
  | scalar s => s.label
  | enumeration _ => "enumeration"
  | identityref _ => "identityref"
  | union _ => "union"

/-- The names of all kinds; the position of a name is the number of its kind. -/
def labels : List String :=
  Scalar.all.map Scalar.label ++ ["enumeration", "identityref", "union"]

end TypeKind

mutual

/-- Whether a type is enumerated, or a union with an enumerated member at any depth. -/
def LeafType.containsEnum : LeafType → Bool
  | ⟨_, kind, _⟩ => kind.containsEnum

/-- Whether a kind is enumerated, or a union with an enumerated member at any depth. -/
def TypeKind.containsEnum : TypeKind → Bool
  | .scalar _ => false
  | .enumeration _ => true
  | .identityref _ => true
  | .union members => LeafType.anyContainsEnum members

def LeafType.anyContainsEnum : List LeafType → Bool
  | [] => false
  | type :: rest => type.containsEnum || LeafType.anyContainsEnum rest

end

namespace LeafType

def named (name : String) (kind : TypeKind) : LeafType := ⟨name, kind, none⟩

def builtin (kind : TypeKind) : LeafType := named kind.label kind

def string : LeafType := builtin (.scalar .string)

def boolean : LeafType := builtin (.scalar .boolean)

def enumeration (members : List EnumMember) : LeafType := builtin (.enumeration members)

def typedefEnum (typedef : String) (members : List EnumMember) : LeafType :=
  named typedef (.enumeration members)

def identityref (base : String) (values : List String) : LeafType :=
  builtin (.identityref ⟨base, none, values⟩)

def union (members : List LeafType) : LeafType := builtin (.union members)

def withDefault (type : LeafType) (default : String) : LeafType :=
  { type with default := some default }

def isInlineEnum (type : LeafType) : Bool :=
  match type.kind with
  | .enumeration _ => type.name == "enumeration"
  | _ => false

end LeafType

end YangToProto

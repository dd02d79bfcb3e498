import YangToProto.Schema.LeafType

/-!
# Protocol buffer types of scalars

Two tables give the type of a scalar leaf: the plain scalars of the language, and wrapper
messages that tell an unset value from a zero. Several kinds share an entry, more of them in the
second table.
-/

namespace YangToProto

structure ScalarTable where
  string : String
  boolean : String
  signed32 : String
  signed64 : String
  unsigned32 : String
  unsigned64 : String
  decimal : String
  bytes : String
deriving DecidableEq

namespace ScalarTable

/-- The scalars of the language; keys of lists always use these. -/
def plain : ScalarTable where
  string := "string"
  boolean := "bool"
  signed32 := "sint32"
  signed64 := "sint64"
  unsigned32 := "uint32"
  unsigned64 := "uint64"
  decimal := "double"
  bytes := "bytes"

def wrapper : ScalarTable where
  string := "ywrapper.StringValue"
  boolean := "ywrapper.BoolValue"
  signed32 := "ywrapper.IntValue"
  signed64 := "ywrapper.IntValue"
  unsigned32 := "ywrapper.UintValue"
  unsigned64 := "ywrapper.UintValue"
  decimal := "ywrapper.Decimal64Value"
  bytes := "ywrapper.BytesValue"

/-- The entry of a scalar; some scalars have no counterpart. -/
def scalar? (table : ScalarTable) : Scalar → Option String
  | .string => some table.string
  | .boolean => some table.boolean
  | .empty => some table.boolean
  | .int8 => some table.signed32
  | .int16 => some table.signed32
  | .int32 => some table.signed32
  | .int64 => some table.signed64
  | .uint8 => some table.unsigned32
  | .uint16 => some table.unsigned32
  | .uint32 => some table.unsigned32
  | .uint64 => some table.unsigned64
  | .decimal64 => some table.decimal
  | .binary => some table.bytes
  | .bits => none
  | .instanceIdentifier => none
  | .leafref => none

/-- The entry of a kind; kinds that are not scalar have none. -/
def kind? (table : ScalarTable) : TypeKind → Option String
  | .scalar s => table.scalar? s
  | .enumeration _ => none
  | .identityref _ => none
  | .union _ => none

end ScalarTable

end YangToProto

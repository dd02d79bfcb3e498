import YangToProto.Collection.SortedMap

/-!
# Messages and enums

The records from which files are written: a message with its fields and embedded enums, and an
enum of a whole package.
-/

namespace YangToProto

abbrev EnumTable := SortedMap Int String

structure Field where
  tag : UInt32
  name : String
  typeName : String
  repeated : Bool
  /-- Field options, each as it stands between the brackets. -/
  options : List String
deriving DecidableEq

inductive MessageKind where
  /-- The fields of a container or list. -/
  | directory
  /-- The keys of a list entry together with the entry. -/
  | listKey
deriving DecidableEq

structure Message where
  name : String
  package : String
  /-- Path of the schema node that the message was made for. -/
  schemaPath : String
  fields : List Field
  /-- Embedded enums by name. -/
  enums : SortedMap String EnumTable
  /-- Import paths of other packages, each once, in the order of first use. -/
  imports : List String
  kind : MessageKind
deriving DecidableEq

structure PackageEnum where
  name : String
  /-- What the enum was generated for. -/
  description : String
  values : EnumTable
deriving DecidableEq

end YangToProto

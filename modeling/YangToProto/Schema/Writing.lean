import YangToProto.Json.Print
import YangToProto.Schema.Node

/-!
# Writing schemas

The JSON form of nodes and types, from which they are read back. Parts that are empty or absent
are left out.
-/

namespace YangToProto

def EnumMember.toJson (member : EnumMember) : Json :=
  .object [("name", .string member.name), ("value", .ofInt member.value.toInt)]

def IdentityBase.toJson (base : IdentityBase) : Json :=
  .object ([("name", .string base.name)] ++
    (match base.module with
      | some module => [("module", .string module)]
      | none => []) ++
    [("values", .array (base.values.map .string))])

mutual

def LeafType.toJson : LeafType → Json
  | ⟨name, kind, default⟩ =>
    .object ([("name", .string name)] ++ kind.members ++
      match default with
      | some text => [("default", .string text)]
      | none => [])

def TypeKind.members : TypeKind → List (String × Json)
  | .scalar s => [("kind", .string s.label)]
  | .enumeration members =>
    [("kind", .string "enumeration"), ("members", .array (members.map EnumMember.toJson))]
  | .identityref base => [("kind", .string "identityref"), ("base", base.toJson)]
  | .union members =>
    [("kind", .string "union"), ("members", .array (LeafType.allToJson members))]

def LeafType.allToJson : List LeafType → List Json
  | [] => []
  | type :: rest => type.toJson :: LeafType.allToJson rest

end

namespace Node

mutual

def toJson : Node → Json
  | ⟨name, kind, key, type, children⟩ =>
    .object ([("name", .string name), ("kind", .string kind.label)] ++
      (if key.isEmpty then [] else [("key", .array (key.map .string))]) ++
      (match type with
        | some type => [("type", type.toJson)]
        | none => []) ++
      match allToJson children with
      | [] => []
      | forms => [("children", .array forms)])

def allToJson : List Node → List Json
  | [] => []
  | node :: rest => toJson node :: allToJson rest

end

def write (node : Node) : String := node.toJson.print

end Node

end YangToProto

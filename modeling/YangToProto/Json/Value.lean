/-!
# JSON values

A number is kept as an integer if it is written as one and fits 64 bits with or without a sign,
and as a floating-point number otherwise. The members of an object keep their order and may
repeat a name.
-/

namespace YangToProto

inductive JsonNumber where
  | integer (value : Int)
  | floating (value : Float)

inductive Json where
  | null
  | bool (value : Bool)
  | number (value : JsonNumber)
  | string (value : String)
  | array (items : List Json)
  | object (members : List (String × Json))

namespace Json

def ofInt (value : Int) : Json := number (.integer value)

end Json

end YangToProto

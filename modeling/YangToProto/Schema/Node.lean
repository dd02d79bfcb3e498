import YangToProto.Schema.LeafType

/-!
# Schema nodes

A schema is a tree of named nodes. A node lists its children in the order in which they are
declared. Whatever walks through them puts them in name order first (`Node.sortedChildren`), so
nothing but the numbering of nodes (`YangToProto.Schema.Tree`) depends on that order.
-/

namespace YangToProto

/-- Items in name order with one more item, in front of the first whose name is not before its
own. -/
def placeByName {α : Type} (name : α → String) (item : α) : List α → List α
  | [] => [item]
  | other :: rest =>
    if compare (name other) (name item) = .lt then other :: placeByName name item rest
    else item :: other :: rest

/-- Items in name order. Those of one name stay in order. -/
def sortByName {α : Type} (name : α → String) : List α → List α
  | [] => []
  | item :: rest => placeByName name item (sortByName name rest)

/-- The kinds of schema nodes. An `anydata` node is carried along but has no message form. -/
inductive NodeKind where
  | module
  | container
  | list
  | leaf
  | leafList
  | anydata
deriving DecidableEq, Repr

namespace NodeKind

def all : List NodeKind := [module, container, list, leaf, leafList, anydata]

def label : NodeKind → String
  | module => "module"
  | container => "container"
  | list => "list"
  | leaf => "leaf"
  | leafList => "leaf-list"
  | anydata => "anydata"

def ofLabel? (label : String) : Option NodeKind := all.find? fun kind => kind.label == label

def title : NodeKind → String
  | module => "Module"
  | container => "Container"
  | list => "List"
  | leaf => "Leaf"
  | leafList => "LeafList"
  | anydata => "Anydata"

def keyTypeName : NodeKind → String
  | module => "module"
  | container => "container"
  | list => "list"
  | leaf => "leaf"
  | leafList => "leaflist"
  | anydata => "anydata"

def isDirectory : NodeKind → Bool
  | container => true
  | list => true
  | _ => false

/-- Whether nodes of this kind carry values, and so a type. -/
def isLeaf : NodeKind → Bool
  | leaf => true
  | leafList => true
  | _ => false

end NodeKind

/-- A schema node with everything below it. -/
structure Node where
  name : String
  kind : NodeKind
  /-- Names of the key leaves of a list, in declared order; a list without keys has none. -/
  key : List String
  type : Option LeafType
  children : List Node

namespace Node

def isKeyedList (node : Node) : Bool := node.kind == .list && !node.key.isEmpty

def module (name : String) (children : List Node) : Node := ⟨name, .module, [], none, children⟩

def container (name : String) (children : List Node) : Node :=
  ⟨name, .container, [], none, children⟩

def list (name : String) (key : List String) (children : List Node) : Node :=
  ⟨name, .list, key, none, children⟩

def leaf (name : String) (type : LeafType) : Node := ⟨name, .leaf, [], some type, []⟩

def leafList (name : String) (type : LeafType) : Node := ⟨name, .leafList, [], some type, []⟩

def anydata (name : String) : Node := ⟨name, .anydata, [], none, []⟩

instance : Inhabited Node := ⟨anydata ""⟩

def child? (node : Node) (name : String) : Option Node := node.children.find? (·.name == name)

def sortedChildren (node : Node) : List Node := sortByName name node.children

end Node

end YangToProto

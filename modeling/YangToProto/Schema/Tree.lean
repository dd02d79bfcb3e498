import YangToProto.Schema.Node
import YangToProto.Text.Segments

/-!
# Schema trees

A schema tree is built from a declared module. Its nodes stand in an arena and refer to each other
by their numbers, which are their positions there. The arena is grown by a recursion over the
declaration: a node is added in front of its children, and each child is entered among the children
of its parent once everything below it has been added. So a number tells where a node is declared,
but nothing else reads the order of declaration.

A node is met together with its ancestors, as a `Site`, and its children in name order. The path of
a site, which names the nodes from the module down to it, tells the sites of a tree apart.
-/

namespace YangToProto

inductive SchemaError where
  | rootNotModule (name : String) (kind : NodeKind)
  | leafWithoutType (path : List String)
  | duplicateChild (name : String) (parent : List String)
deriving DecidableEq, Repr

/-- The text of a schema path: each name behind a slash. -/
def pathText (path : List String) : String := "/" ++ Segments.toString '/' path

namespace SchemaError

def reason : SchemaError → String
  | rootNotModule name kind => s!"root {name} must be a module, got {kind.title}"
  | leafWithoutType path => s!"leaf {pathText path} has no type"
  | duplicateChild name parent => s!"duplicate child {name} under {pathText parent}"

end SchemaError

structure ArenaNode where
  name : String
  kind : NodeKind
  /-- The names from the module down to the node. -/
  path : List String
  parent : Option Nat
  /-- The children by name, in the order in which they have been entered. -/
  children : List (String × Nat)
  key : List String
  type : Option LeafType

abbrev Arena := Array ArenaNode

namespace Arena

/-- The names from the module down to a node of a given parent. -/
def pathBelow (arena : Arena) (parent : Option Nat) (name : String) : List String :=
  ((parent.bind fun number => arena[number]?).map ArenaNode.path).getD [] ++ [name]

/-- The arena with a node entered among the children of its parent. -/
def link (arena : Arena) (parent : Nat) (name : String) (number : Nat) :
    Except SchemaError Arena :=
  match arena[parent]? with
  | none => .ok arena
  | some node =>
    if (node.children.lookup name).isSome then .error (.duplicateChild name node.path)
    else .ok (arena.setIfInBounds parent
      { node with children := node.children ++ [(name, number)] })

mutual

/-- The arena with a node and everything below it, and the number of the node. -/
def insert (arena : Arena) (parent : Option Nat) : Node → Except SchemaError (Nat × Arena)
  | ⟨name, kind, key, type, children⟩ => do
    let number := arena.size
    let path := arena.pathBelow parent name
    if kind.isLeaf && type.isNone then throw (.leafWithoutType path)
    let grown ← insertAll (arena.push ⟨name, kind, path, parent, [], key, type⟩) number children
    return (number, grown)

/-- The arena with further children of a node and everything below them. -/
def insertAll (arena : Arena) (parent : Nat) : List Node → Except SchemaError Arena
  | [] => return arena
  | child :: rest => do
    let (number, grown) ← insert arena (some parent) child
    let linked ← grown.link parent child.name number
    insertAll linked parent rest

end

def child? (arena : Arena) (number : Nat) (name : String) : Option Nat :=
  arena[number]?.bind fun node => node.children.lookup name

def sortedChildren (arena : Arena) (number : Nat) : List (String × Nat) :=
  sortByName Prod.fst ((arena[number]?.map ArenaNode.children).getD [])

end Arena

/-- A node in its place: the node and its ancestors, the nearest first. -/
structure Site where
  node : Node
  ancestors : List Node

namespace Site

def path (site : Site) : List String := (site.ancestors.map Node.name).reverse ++ [site.node.name]

/-- The path as text, such as `/interfaces/interface/name`. -/
def pathText (site : Site) : String := YangToProto.pathText site.path

def name (site : Site) : String := site.node.name

def kind (site : Site) : NodeKind := site.node.kind

def parent? (site : Site) : Option Site :=
  match site.ancestors with
  | [] => none
  | parent :: above => some ⟨parent, above⟩

def below (site : Site) (child : Node) : Site := ⟨child, site.node :: site.ancestors⟩

def children (site : Site) : List Site := site.node.sortedChildren.map site.below

def child? (site : Site) (name : String) : Option Site := (site.node.child? name).map site.below

def descend? (site : Site) : List String → Option Site
  | [] => some site
  | name :: rest => (site.child? name).bind fun child => child.descend? rest

end Site

/-- A schema tree: the module with everything below it, and the arena of its nodes. -/
structure Tree where
  root : Node
  arena : Arena

namespace Tree

def ofNode (declared : Node) : Except SchemaError Tree := do
  if declared.kind != .module then throw (.rootNotModule declared.name declared.kind)
  let (_, arena) ← Arena.insert #[] none declared
  return ⟨declared, arena⟩

def rootSite (tree : Tree) : Site := ⟨tree.root, []⟩

def size (tree : Tree) : Nat := tree.arena.size

/-- The site at the end of a path that starts with the module's name. -/
def siteAt? (tree : Tree) : List String → Option Site
  | [] => none
  | name :: rest => if name == tree.root.name then tree.rootSite.descend? rest else none

/-- The number of the node at the end of a path that starts with the module's name. -/
def numberAt? (tree : Tree) : List String → Option Nat
  | [] => none
  | name :: rest =>
    if name == tree.root.name then rest.foldlM tree.arena.child? 0 else none

/-- The number of the node that a path text names; slashes in front of the module's name are
skipped. -/
def find? (tree : Tree) (text : String) : Option Nat :=
  tree.numberAt? (Segments.ofString '/' (String.ofList (text.toList.dropWhile (· == '/'))))

def site? (tree : Tree) (number : Nat) : Option Site :=
  tree.arena[number]?.bind fun node => tree.siteAt? node.path

def number? (tree : Tree) (site : Site) : Option Nat := tree.numberAt? site.path

end Tree

end YangToProto

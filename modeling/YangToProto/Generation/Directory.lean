import YangToProto.Collection.SortedMap
import YangToProto.Schema.Tree

/-!
# Directories

A directory is a container or list that becomes a message, with the fields of that message.
Without path compression the fields are the node's children. With compression some containers
are elided and their children take their place:

* `config` and `state` below a directory. A direct child wins over a child of `config`, and that
  over a child of another elided container.
* a container whose only child is a list; the list becomes a field under its own name.

`Site.holder?` finds the directory of a node by looking upwards, `Site.expand` finds the fields
of a directory by looking downwards.
-/

namespace YangToProto

namespace Site

/-- Whether the node is named `config` or `state` and stands below a container or list. -/
def isConfigOrState (site : Site) : Bool :=
  (match site.ancestors with
    | [] => false
    | parent :: _ => parent.kind.isDirectory) &&
  (site.name == "config" || site.name == "state")

def surroundsList (site : Site) : Bool :=
  match site.node.children with
  | [child] => child.kind == .list
  | _ => false

def isElided (compress : Bool) (site : Site) : Bool :=
  compress && site.kind == .container && (site.isConfigOrState || site.surroundsList)

/-- The nearest of some ancestors, given from the inside out, that has a message. The last of
them is the module, which has none. -/
def holderAmong? (compress : Bool) : List Node → Option Site
  | [] => none
  | [_] => none
  | node :: above => if isElided compress ⟨node, above⟩ then holderAmong? compress above
    else some ⟨node, above⟩

/-- The nearest ancestor that has a message. -/
def holder? (compress : Bool) (site : Site) : Option Site :=
  holderAmong? compress site.ancestors

/-- What stands for each of some siblings, by their names, put together in name order. -/
def joinByName {α : Type} (parts : List (String × List α)) : List α :=
  (sortByName Prod.fst parts).flatMap Prod.snd

mutual

/-- The fields that a child contributes: itself, or what its children contribute if it is
elided. -/
def expand (compress : Bool) (ancestors : List Node) : Node → List Site
  | ⟨name, kind, key, type, children⟩ =>
    let node : Node := ⟨name, kind, key, type, children⟩
    if isElided compress ⟨node, ancestors⟩ then
      joinByName (expandAll compress (node :: ancestors) children)
    else [⟨node, ancestors⟩]

def expandAll (compress : Bool) (ancestors : List Node) : List Node → List (String × List Site)
  | [] => []
  | node :: rest =>
    (node.name, expand compress ancestors node) :: expandAll compress ancestors rest

end

/-- The rank of a child's fields where names meet: 0 for children that stay and for the list in
an elided container, 1 below an elided `config`, 2 below any other elided container. -/
def rank (compress : Bool) (child : Site) : Nat :=
  if !child.isElided compress || child.surroundsList then 0
  else if child.name == "config" then 1
  else 2

def fieldsOfRank (compress : Bool) (site : Site) (rank : Nat) : List Site :=
  (site.children.filter fun child => child.rank compress == rank).flatMap fun child =>
    expand compress child.ancestors child.node

/-- The fields of a directory by name; of several with one name the first in rank counts. -/
def fields (compress : Bool) (site : Site) : SortedMap String Site :=
  let ranked := [0, 1, 2].flatMap (site.fieldsOfRank compress)
  ranked.foldl (fun found field => found.insertNew field.name field) SortedMap.empty

end Site

structure Directory where
  site : Site
  path : String
  fields : SortedMap String Site

namespace Directory

def ofSite (compress : Bool) (site : Site) : Directory :=
  ⟨site, site.pathText, site.fields compress⟩

end Directory

namespace Site

/-- Whether the node becomes a message: a container or list below the module that is not
elided. -/
def isMessage (compress : Bool) (site : Site) : Bool :=
  !site.ancestors.isEmpty && site.kind.isDirectory && !site.isElided compress

mutual

/-- The directories at and below a node, children before parents. -/
def directories (compress : Bool) (ancestors : List Node) : Node → List Directory
  | ⟨name, kind, key, type, children⟩ =>
    let node : Node := ⟨name, kind, key, type, children⟩
    joinByName (directoriesAll compress (node :: ancestors) children) ++
      if isMessage compress ⟨node, ancestors⟩ then [Directory.ofSite compress ⟨node, ancestors⟩]
      else []

def directoriesAll (compress : Bool) (ancestors : List Node) :
    List Node → List (String × List Directory)
  | [] => []
  | node :: rest =>
    (node.name, directories compress ancestors node) :: directoriesAll compress ancestors rest

end

end Site

/-- The directories of a tree, children before parents and siblings in name order. -/
structure DirectorySet where
  directories : List Directory

namespace DirectorySet

def collect (tree : Tree) (compress : Bool) : DirectorySet :=
  ⟨Site.directories compress [] tree.root⟩

/-- The directory with a given path text, the last one if texts coincide. -/
def find? (set : DirectorySet) (path : String) : Option Directory :=
  set.directories.reverse.find? (·.path == path)

def size (set : DirectorySet) : Nat := set.directories.length

end DirectorySet

end YangToProto

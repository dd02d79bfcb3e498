import YangToProto.Generation.Directory
import YangToProto.Generation.Error
import YangToProto.Proto.Identifier

/-!
# Names of packages, messages and shared enums

A registry hands out names and never takes one back: asked again, it answers as before. Packages
follow the ancestors of a node, messages are kept apart within their package, and the enums of
typedefs, identities and enumerated unions within the package of shared enums.

A frozen registry assigns no more message names; `Registry.prepopulate` names everything that
the directories of a tree need and freezes.
-/

namespace YangToProto

/-- What the package of a node depends on: whether paths are compressed, and the path of the
nearest ancestor with a message (empty if there is none). -/
structure Anchor where
  compress : Bool
  path : String
deriving DecidableEq

namespace Anchor

instance : Ord Anchor := ⟨compareLex (compareOn compress) (compareOn path)⟩

instance : Std.TransOrd Anchor :=
  inferInstanceAs (Std.TransCmp (compareLex (compareOn compress) (compareOn path)))

instance : Std.LawfulEqOrd Anchor where
  eq_of_compare {a b} h := by
    have h : compareLex (compareOn compress) (compareOn path) a b = .eq := h
    rw [compareLex_eq_eq] at h
    cases a
    cases b
    simp_all [compareOn, Std.LawfulEqCmp.compare_eq_iff_eq]

end Anchor

/-- An enum of the shared package, as requested by the first leaf that refers to it. -/
structure SharedEnum where
  name : String
  sourcePath : String
  type : LeafType

/-- What tells shared enums apart: the identity base, the leaf of an enumerated union, or the
typedef. A base of no particular module counts as one of the nameless module. -/
def LeafType.enumKey (type : LeafType) (leafPath : String) : String :=
  match type.kind with
  | .identityref base => "identity:" ++ base.module.getD "" ++ ":" ++ base.name
  | .union _ => s!"union:{leafPath}"
  | _ => s!"typedef:{type.name}"

def LeafType.enumCandidate (type : LeafType) (leafPath : String) : String :=
  Identifier.pascalCase <|
    match type.kind with
    | .identityref base => base.name
    | .union _ => Segments.last '/' leafPath
    | _ => type.name

namespace Site

/-- Those of some ancestors, given from the inside out, that have messages. The last of the
ancestors is the module, which has none. -/
def keptAmong (compress : Bool) : List Node → List Site
  | [] => []
  | [_] => []
  | node :: above =>
    if isElided compress ⟨node, above⟩ then keptAmong compress above
    else ⟨node, above⟩ :: keptAmong compress above

/-- What the package of the node depends on. -/
def anchor (compress : Bool) (site : Site) : Anchor :=
  ⟨compress, ((keptAmong compress site.ancestors).head?.map Site.pathText).getD ""⟩

/-- The package wanted for the node's message: the base, then a part for each ancestor with a
message. -/
def packageCandidate (compress : Bool) (basePackage : String) (site : Site) : String :=
  Package.dotted (basePackage ::
    ((keptAmong compress site.ancestors).map fun kept => Identifier.sanitize kept.name).reverse)

end Site

structure Registry where
  basePackage : String
  packages : SortedMap Anchor String
  usedPackages : NameSet
  /-- Message names by the path of their node. -/
  messages : SortedMap String String
  /-- Names of key wrappers by the path of their list. -/
  keyMessages : SortedMap String String
  /-- The message names taken in each package. -/
  packageScopes : SortedMap String NameSet
  /-- Names of shared enums by what tells them apart. -/
  enumNames : SortedMap String String
  sharedEnums : SortedMap String SharedEnum
  /-- The names taken in the package of shared enums. -/
  enumScope : NameSet
  /-- Whether message names are no longer assigned. -/
  frozen : Bool
  /-- How many names had to be given a suffix. -/
  disambiguated : Nat

/-- Naming reads and extends a registry; what it has assigned stays assigned when it fails. -/
abbrev Naming := ExceptT GenerationError (StateM Registry)

namespace Registry

def new (basePackage : String) : Registry where
  basePackage := basePackage
  packages := ∅
  usedPackages := ∅
  messages := ∅
  keyMessages := ∅
  packageScopes := ∅
  enumNames := ∅
  sharedEnums := ∅
  enumScope := ∅
  frozen := false
  disambiguated := 0

/-- The registry with a package that no node may take. -/
def reserve (registry : Registry) (package : String) : Registry :=
  { registry with usedPackages := registry.usedPackages.add package }

/-- The count of suffixed names once a candidate has led to a name. -/
def countIfChanged (count : Nat) (candidate name : String) : Nat :=
  if name == candidate then count else count + 1

/-- The package of a node's message. Siblings share it, whatever their names. -/
def packageFor (compress : Bool) (site : Site) : StateM Registry String := fun registry =>
  match registry.packages.find? (site.anchor compress) with
  | some package => (package, registry)
  | none =>
    let candidate := site.packageCandidate compress registry.basePackage
    let (package, used) := registry.usedPackages.claim candidate
    (package,
      { registry with
        packages := registry.packages.insert (site.anchor compress) package
        usedPackages := used
        disambiguated := countIfChanged registry.disambiguated candidate package })

def claimInPackage (package candidate : String) : StateM Registry String := fun registry =>
  let scope := (registry.packageScopes.find? package).getD ∅
  let (name, taken) := NameSet.claim scope candidate
  (name,
    { registry with
      packageScopes := registry.packageScopes.insert package taken
      disambiguated := countIfChanged registry.disambiguated candidate name })

def messageName (compress : Bool) (site : Site) : Naming String := do
  let registry ← get
  match registry.messages.find? site.pathText with
  | some name => return name
  | none =>
    if registry.frozen then
      throw (.nameResolution site.pathText "no message name was assigned before generation")
    let package ← packageFor compress site
    let name ← claimInPackage package (Identifier.pascalCase site.name)
    modify fun registry => { registry with messages := registry.messages.insert site.pathText name }
    return name

/-- The name of the key wrapper of a list, in the package of the message that holds the list. -/
def keyMessageName (list : Site) (listMessage parentPackage : String) : Naming String := do
  let registry ← get
  match registry.keyMessages.find? list.pathText with
  | some name => return name
  | none =>
    if registry.frozen then
      throw (.nameResolution list.pathText "no key message name was assigned before generation")
    let name ← claimInPackage parentPackage s!"{listMessage}Key"
    modify fun registry =>
      { registry with keyMessages := registry.keyMessages.insert list.pathText name }
    return name

/-- The name of the shared enum of a typedef, identity base or enumerated union, recorded with
the leaf that asks for it first. -/
def sharedEnumName (leafPath : String) (type : LeafType) : StateM Registry String :=
  fun registry =>
    match registry.enumNames.find? (type.enumKey leafPath) with
    | some name => (name, registry)
    | none =>
      let candidate := type.enumCandidate leafPath
      let (name, taken) := NameSet.claim registry.enumScope candidate
      (name,
        { registry with
          enumScope := taken
          disambiguated := countIfChanged registry.disambiguated candidate name
          enumNames := registry.enumNames.insert (type.enumKey leafPath) name
          sharedEnums := registry.sharedEnums.insert name ⟨name, leafPath, type⟩ })

def nameMessages (compress : Bool) : List Directory → Naming Unit
  | [] => return
  | directory :: rest => do
    let _ ← messageName compress directory.site
    nameMessages compress rest

/-- Names the key wrappers of the keyed lists among fields of a message in the given package. -/
def nameKeysOf (compress : Bool) (package : String) : List Site → Naming Unit
  | [] => return
  | field :: rest => do
    if field.node.isKeyedList then
      let listMessage ← messageName compress field
      let _ ← keyMessageName field listMessage package
    nameKeysOf compress package rest

def nameKeys (compress : Bool) : List Directory → Naming Unit
  | [] => return
  | directory :: rest => do
    let package ← packageFor compress directory.site
    nameKeysOf compress package directory.fields.values
    nameKeys compress rest

/-- The registry with everything named that the directories need, and frozen. Key wrappers come
last, because they stand in the package of the message that holds their list. -/
def prepopulate (compress : Bool) (directories : DirectorySet) (registry : Registry) :
    Except GenerationError Registry :=
  let naming : Naming Unit := do
    nameMessages compress directories.directories
    nameKeys compress directories.directories
  match naming registry with
  | (.ok (), named) => .ok { named with frozen := true }
  | (.error error, _) => .error error

structure Stats where
  packages : Nat
  messages : Nat
  keyMessages : Nat
  sharedEnums : Nat
  disambiguated : Nat
deriving DecidableEq

/-- The counts of names handed out; reserved packages count too. -/
def stats (registry : Registry) : Stats where
  packages := registry.usedPackages.size
  messages := registry.messages.size
  keyMessages := registry.keyMessages.size
  sharedEnums := registry.sharedEnums.size
  disambiguated := registry.disambiguated

end Registry

end YangToProto

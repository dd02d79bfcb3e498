import YangToProto.Generation.EnumValues
import YangToProto.Generation.Ledger
import YangToProto.Generation.TypeMapping

/-!
# Drafts of messages

A directory is drafted in three steps. Each field is mapped on its own, which may extend the
registry of names but looks at nothing that other fields have done; if all fields map, they enter
the scope of the message in name order, where field names and embedded enums are told apart; and
last the ledger gives the tags.

The fields that are keys of a list do not stay in the list's message. They move, with a reference
to that message, to a key wrapper beside the message that holds the list.
-/

namespace YangToProto

/-- Drafting extends a registry and may report several errors. -/
abbrev Drafting := ExceptT GenerationErrors (StateM Registry)

def Naming.drafting {α : Type} (step : Naming α) : Drafting α :=
  ExceptT.adapt (fun error => [error]) step

inductive FieldType where
  /-- A type that exists elsewhere, with the import path that it needs. -/
  | reference (typeName : String) (importPath : Option String)
  /-- An enum to be embedded in the message, with the name wanted for it. -/
  | embedded (candidate : String) (values : EnumTable)

/-- A field before it enters its message. -/
structure FieldDraft where
  schemaName : String
  type : FieldType
  repeated : Bool
  options : List String
  /-- The key wrapper that the field refers to, if it does. -/
  wrapper : Option Message

structure UntaggedField where
  name : String
  typeName : String
  repeated : Bool
  options : List String

namespace UntaggedField

def withTag (field : UntaggedField) (tag : UInt32) : Field :=
  ⟨tag, field.name, field.typeName, field.repeated, field.options⟩

end UntaggedField

structure Scope where
  fieldNames : NameSet
  enumNames : NameSet
  fields : List UntaggedField
  enums : SortedMap String EnumTable
  imports : List String

namespace Scope

def empty : Scope := ⟨∅, ∅, [], ∅, []⟩

/-- The scope with one more import, each once. -/
def addImport (scope : Scope) (path : String) : Scope :=
  if scope.imports.contains path then scope else { scope with imports := scope.imports ++ [path] }

def addField (scope : Scope) (schemaName typeName : String) (repeated : Bool)
    (options : List String) : Scope :=
  let (name, taken) := scope.fieldNames.claim (Identifier.sanitize schemaName)
  { scope with
    fieldNames := taken
    fields := scope.fields ++ [⟨name, typeName, repeated, options⟩] }

/-- The scope with a drafted field, and with the enum or import that it brings. -/
def accept (scope : Scope) (draft : FieldDraft) : Scope :=
  match draft.type with
  | .reference typeName none =>
    scope.addField draft.schemaName typeName draft.repeated draft.options
  | .reference typeName (some path) =>
    (scope.addField draft.schemaName typeName draft.repeated draft.options).addImport path
  | .embedded candidate values =>
    let (name, taken) := scope.enumNames.claim candidate
    { scope with enumNames := taken, enums := scope.enums.insert name values }.addField
      draft.schemaName name draft.repeated draft.options

def ofDrafts (drafts : List FieldDraft) : Scope := drafts.foldl accept empty

def message (scope : Scope) (name package schemaPath : String) (tags : List UInt32)
    (kind : MessageKind) : Message where
  name := name
  package := package
  schemaPath := schemaPath
  fields := List.zipWith UntaggedField.withTag scope.fields tags
  enums := scope.enums
  imports := scope.imports
  kind := kind

end Scope

namespace Site

def pathOption (site : Site) : String := "(yext.schemapath) = \"" ++ site.pathText ++ "\""

/-- The type of a field as mapped, or the enum to be embedded for an enumeration in place. -/
def fieldType (leaf : Site) (type : LeafType) (mapped : MappedType) :
    Except GenerationError FieldType :=
  if type.isInlineEnum then do
    return .embedded mapped.typeName (← type.enumerationValues leaf.pathText)
  else return .reference mapped.typeName mapped.importPath

def leafField (config : Config) (leaf : Site) : Naming FieldType :=
  match leaf.node.type with
  | none => throw (.unsupportedType leaf.pathText "<none>")
  | some type => do
    let mapped ← type.mapValue config leaf
    leaf.fieldType type mapped

def messageReference (config : Config) (site : Site) : Naming (String × String) := do
  let name ← Registry.messageName config.compressPaths site
  let package ← Registry.packageFor config.compressPaths site
  return (name, package)

def importFrom (own other : String) : Option String :=
  if other == own then none else some (Package.importPath other)

/-- The leaf that a key names: the field of the list's directory, where compression may have
brought it up, or else the list's child. -/
def keyLeaf? (set : DirectorySet) (list : Site) (key : String) : Option Site :=
  match (set.find? list.pathText).bind (·.fields.find? key) with
  | some leaf => some leaf
  | none => list.child? key

def keyField (config : Config) (set : DirectorySet) (list : Site) (key : String) :
    Naming FieldType :=
  match list.keyLeaf? set key with
  | none => throw (.missingKey list.pathText key)
  | some leaf =>
    match leaf.kind, leaf.node.type with
    | .leaf, some type => do
      let mapped ← type.mapKey config leaf
      leaf.fieldType type mapped
    | kind, _ => throw (.keyType list.pathText key kind.keyTypeName)

def keyFields (config : Config) (set : DirectorySet) (list : Site) :
    List String → StateM Registry (List (Except GenerationErrors FieldDraft))
  | [] => return []
  | key :: rest => do
    let outcome ← (list.keyField config set key).drafting.run
    let others ← keyFields config set list rest
    return (outcome.map fun type => ⟨key, type, false, [], none⟩) :: others

/-- The tags from 1 on for a number of fields. Only beyond `2 ^ 32` fields do they repeat. -/
def tagsFromOne (count : Nat) : List UInt32 := (List.range' 1 count).map UInt32.ofNat

/-- The key wrapper of a keyed list in the package of the message that holds it: the keys in
declared order, then the list's own message, tagged from 1 on. -/
def keyWrapper (config : Config) (set : DirectorySet) (package : String) (list : Site)
    (listMessage listPackage : String) : Drafting Message := do
  let name ← (Registry.keyMessageName list listMessage package).drafting
  let outcomes ← list.keyFields config set list.node.key
  let keys ← (GenerationErrors.gather outcomes : Except _ _)
  let entry : FieldDraft :=
    ⟨list.name,
      .reference (Package.dotted [listPackage, listMessage]) (importFrom package listPackage),
      false, [], none⟩
  let scope := Scope.ofDrafts (keys ++ [entry])
  return scope.message name package list.pathText (tagsFromOne scope.fields.length) .listKey

/-- The draft of a field of a directory whose message stands in the given package. -/
def draft (config : Config) (set : DirectorySet) (directoryPath package fieldName : String)
    (site : Site) : Drafting FieldDraft := do
  let options := if config.annotateSchemaPaths then [site.pathOption] else []
  match site.kind with
  | .list =>
    let (name, home) ← (site.messageReference config).drafting
    if site.node.isKeyedList then
      let wrapper ← site.keyWrapper config set package name home
      return ⟨fieldName,
        .reference (Package.dotted [package, wrapper.name]) (importFrom package home),
        true, options, some wrapper⟩
    else
      return ⟨fieldName, .reference (Package.dotted [home, name]) (importFrom package home),
        true, options, none⟩
  | .container =>
    let (name, home) ← (site.messageReference config).drafting
    return ⟨fieldName, .reference (Package.dotted [home, name]) (importFrom package home),
      false, options, none⟩
  | .leaf =>
    let type ← (site.leafField config).drafting
    return ⟨fieldName, type, false, options, none⟩
  | .leafList =>
    let type ← (site.leafField config).drafting
    return ⟨fieldName, type, true, options, none⟩
  | .module => throw [.unknownFieldKind directoryPath fieldName]
  | .anydata => throw [.unknownFieldKind directoryPath fieldName]

def drafts (config : Config) (set : DirectorySet) (directoryPath package : String) :
    List (String × Site) → StateM Registry (List (Except GenerationErrors FieldDraft))
  | [] => return []
  | (fieldName, site) :: rest => do
    let outcome ← (site.draft config set directoryPath package fieldName).run
    let others ← drafts config set directoryPath package rest
    return outcome :: others

end Site

/-- A message that lacks only its tags, with the key wrappers beside it. -/
structure MessageDraft where
  name : String
  package : String
  schemaPath : String
  scope : Scope
  wrappers : List Message

namespace Directory

/-- Whether the keys of the directory's list move to a key wrapper. There is one only if some
message holds the list. -/
def movesKeys (compress : Bool) (directory : Directory) : Bool :=
  directory.site.node.isKeyedList && (directory.site.holder? compress).isSome

def ownFields (compress : Bool) (directory : Directory) : List (String × Site) :=
  directory.fields.entries.filter fun field =>
    !(directory.movesKeys compress && directory.site.node.key.contains field.1)

/-- The draft of a directory's message, or everything that is wrong with its fields. -/
def draft (config : Config) (set : DirectorySet) (directory : Directory) :
    Drafting MessageDraft := do
  let name ← (Registry.messageName config.compressPaths directory.site).drafting
  let package ← Registry.packageFor config.compressPaths directory.site
  let outcomes ←
    Site.drafts config set directory.path package (directory.ownFields config.compressPaths)
  let fields ← (GenerationErrors.gather outcomes : Except _ _)
  return ⟨name, package, directory.path, Scope.ofDrafts fields,
    fields.filterMap FieldDraft.wrapper⟩

end Directory

namespace MessageDraft

/-- The messages of a draft, key wrappers first, with the tags that the ledger gives. -/
def messages (draft : MessageDraft) (ledger : Ledger) :
    Except GenerationErrors (List Message) × Ledger :=
  match ledger.assign draft.schemaPath (draft.scope.fields.map UntaggedField.name) with
  | (.ok tags, after) =>
    (.ok (draft.wrappers ++
      [draft.scope.message draft.name draft.package draft.schemaPath tags .directory]), after)
  | (.error error, after) => (.error [error], after)

end MessageDraft

/-- What generation carries along from directory to directory. -/
structure GenerationState where
  registry : Registry
  ledger : Ledger

/-- A generation step extends the state, also when it fails. -/
abbrev Generation (α : Type) := GenerationState → Except GenerationErrors α × GenerationState

namespace Directory

/-- The messages of a directory: the key wrappers beside it, then its own message. Nothing is
recorded in the ledger unless all fields can be mapped. -/
def messages (config : Config) (set : DirectorySet) (directory : Directory) :
    Generation (List Message) := fun state =>
  match (directory.draft config set).run state.registry with
  | (.error errors, registry) => (.error errors, ⟨registry, state.ledger⟩)
  | (.ok draft, registry) =>
    let (outcome, ledger) := draft.messages state.ledger
    (outcome, ⟨registry, ledger⟩)

end Directory

end YangToProto

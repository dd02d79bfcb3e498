import YangToProto.Generation.Draft
import YangToProto.Generation.Output

/-!
# Generation

A run drafts the messages of every directory, children before parents, and builds the shared
enums that the leaves asked for. It is all or nothing: either every message and enum is generated
or every error is reported, those of the directories in order before those of the enums.
-/

namespace YangToProto

namespace Registry

/-- A registry that assigns names on first use and keeps the package of shared enums free. -/
def cold (config : Config) : Registry :=
  (Registry.new config.basePackage).reserve config.enumPackage

def ready (config : Config) (set : DirectorySet) : Except GenerationError Registry :=
  (cold config).prepopulate config.compressPaths set

end Registry

namespace Site

/-- The messages of the node at a site. The module has none, and neither has a node that
compression removes. -/
def messageGroup (config : Config) (set : DirectorySet) (site : Site) :
    Generation MessageGroup := fun state =>
  if site.ancestors.isEmpty then (.error [.moduleMessage site.pathText], state)
  else
    match set.find? site.pathText with
    | none => (.error [.nameResolution site.pathText "node does not produce a message"], state)
    | some directory =>
      match directory.messages config set state with
      | (.error errors, state) => (.error errors, state)
      | (.ok messages, state) =>
        let (package, registry) :=
          (Registry.packageFor config.compressPaths site).run state.registry
        (.ok ⟨package, messages⟩, { state with registry := registry })

end Site

namespace DirectorySet

def messageGroups (config : Config) (set : DirectorySet) : List Directory → GenerationState →
    List (Except GenerationErrors MessageGroup) × GenerationState
  | [], state => ([], state)
  | directory :: rest, state =>
    let (outcome, state) := directory.site.messageGroup config set state
    let (others, state) := messageGroups config set rest state
    (outcome :: others, state)

def both {α β : Type} : Except GenerationErrors α → Except GenerationErrors β →
    Except GenerationErrors (α × β)
  | .ok a, .ok b => .ok (a, b)
  | .error errors, .ok _ => .error errors
  | .ok _, .error errors => .error errors
  | .error errors, .error more => .error (errors ++ more)

def records (config : Config) (set : DirectorySet) : Generation GeneratedRecords := fun state =>
  let (outcomes, after) := messageGroups config set set.directories state
  let records := (both (GenerationErrors.gather outcomes) after.registry.buildSharedEnums).map
    fun (groups, enums) => ⟨groups, enums⟩
  (records, after)

def output (config : Config) (sources : Sources) (set : DirectorySet) : Generation Output :=
  fun state =>
    let (records, after) := set.records config state
    (records.map (·.output config sources), after)

end DirectorySet

namespace Tree

def directories (tree : Tree) (config : Config) : DirectorySet :=
  .collect tree config.compressPaths

/-- Everything that a tree gives rise to. New tags enter the ledger even if the run fails. -/
def generateRecords (config : Config) (tree : Tree) (ledger : Ledger) :
    Except GenerationErrors GeneratedRecords × Ledger :=
  let set := tree.directories config
  match Registry.ready config set with
  | .error error => (.error [error], ledger)
  | .ok registry =>
    let (records, after) := set.records config ⟨registry, ledger⟩
    (records, after.ledger)

/-- The files for a tree. New tags enter the ledger even if the run fails. -/
def generate (config : Config) (sources : Sources) (tree : Tree) (ledger : Ledger) :
    Except GenerationErrors Output × Ledger :=
  let (records, after) := tree.generateRecords config ledger
  (records.map (·.output config sources), after)

end Tree

end YangToProto

import YangToProto.Proofs.Generation.DraftParts
import YangToProto.Proofs.Generation.Files
import YangToProto.Proofs.Generation.Regeneration

/-!
# Grouping into files

What a directory gives in the state that a run ends in is what it has given in its turn
(`DirectorySet.forall₂_messageGroup`). So the files of a run can be told from its last state alone:
each directory gives one group of messages, and the file of a package is its header, the messages of
the directories of that package in order, and in the package of shared enums every enum, which no
message stands beside (`Tree.grouped_of_generate`).
-/

namespace YangToProto

variable {config : Config} {tree : Tree} {set : DirectorySet}

/-- In a state that has everything already, a directory gives a group: a key wrapper for each keyed
list among its fields, and then its own message, in the package that the state has for it. -/
structure Directory.Has (config : Config) (set : DirectorySet) (state : GenerationState)
    (directory : Directory) (group : MessageGroup) : Prop where
  gives : directory.site.messageGroup config set state = (.ok group, state)
  package : state.registry.packages.find? (directory.site.anchor config.compressPaths) =
    some group.package
  owners : group.messages.map (fun message => (message.kind, message.schemaPath)) =
    (directory.owners config.compressPaths).map fun owner =>
      (owner.messageKind, owner.site.pathText)

/-- The files are those of some directories and enums: a package has a file if a directory is in it
or if it is that of the enums, and its content is the messages of its directories in order and the
enums. -/
structure Output.Groups (config : Config) (sources : Sources) (directories : List Directory)
    (group : Directory → MessageGroup) (enums : List PackageEnum) (output : Output) : Prop where
  packages : ∀ package, (∃ file, output.find? package = some file) ↔
    (∃ directory ∈ directories, (group directory).package = package) ∨
      (package = config.enumPackage ∧ enums ≠ [])
  content : ∀ package file, output.find? package = some file →
    file.content = (GeneratedRecords.header config sources package file.imports).render ++
      (String.join (((directories.filter fun directory => (group directory).package == package)
        |>.flatMap fun directory => (group directory).messages).map Message.render) ++
      if package = config.enumPackage then String.join (enums.map PackageEnum.render) else "")

namespace DirectorySet

/-- Every directory gives in the end what it has given in its turn. -/
theorem forall₂_messageGroup (directories : List Directory) (state : GenerationState) :
    List.Forall₂ (fun directory outcome =>
        directory.site.messageGroup config set (set.messageGroups config directories state).2 =
          (outcome, (set.messageGroups config directories state).2))
      directories (set.messageGroups config directories state).1 := by
  induction directories generalizing state with
  | nil => exact .nil
  | cons directory rest ih =>
      have hfirst : directory.site.messageGroup config set
          (directory.site.messageGroup config set state).2 =
            ((directory.site.messageGroup config set state).1,
              (directory.site.messageGroup config set state).2) :=
        Site.messageGroup_again .refl fun _ => rfl
      exact .cons (messageGroup_behind_all rest hfirst) (ih _)

/-- Without slashes in names no two directories have one path. -/
theorem nodup_paths (hroot : tree.root.Distinct) (hslash : tree.SlashFree) :
    ((tree.directories config).directories.map Directory.path).Nodup := by
  have hsites : ((tree.directories config).directories.map Directory.site).Nodup :=
    nodup_collect hroot
  rw [List.Nodup, List.pairwise_map] at hsites ⊢
  refine hsites.imp_of_mem fun hone hother hne hpath => hne ?_
  have hfind := find?_collect hroot hslash hone
  rw [hpath, find?_collect hroot hslash hother, Option.some.injEq] at hfind
  rw [hfind]

/-- Without slashes in names, the messages of a group are made for the owners of its directory. -/
theorem Gives.map_owners (hroot : tree.root.Distinct) (hslash : tree.SlashFree)
    {registry : Registry} {directory : Directory}
    (hd : directory ∈ (tree.directories config).directories) {group : MessageGroup}
    (h : (tree.directories config).Gives config registry directory group) :
    registry.packages.find? (directory.site.anchor config.compressPaths) = some group.package ∧
      group.messages.map (fun message => (message.kind, message.schemaPath)) =
        (directory.owners config.compressPaths).map fun owner =>
          (owner.messageKind, owner.site.pathText) := by
  obtain ⟨hfound, hdraft, hlength, hpackage⟩ := h
  obtain ⟨site, _, _, rfl⟩ := mem_collect_iff.1 hd
  have hfind := find?_collect hroot hslash hd
  obtain rfl := Option.some.inj (hfind.symm.trans hfound)
  refine ⟨hpackage, ?_⟩
  obtain ⟨_, hmessages⟩ := Directory.forall₂_madeFor hdraft hlength
  refine map_eq_of_forall₂ ?_ hmessages
  rintro owner message ⟨hmade, _⟩
  rw [hmade.kind, hmade.schemaPath]

end DirectorySet

namespace GeneratedRecords

variable {records : GeneratedRecords} {sources : Sources}

theorem exists_file_iff {package : String} :
    (∃ file, (records.output config sources).find? package = some file) ↔
      (∃ group ∈ records.groups, group.package = package) ∨
        (package = config.enumPackage ∧ records.enums ≠ []) := by
  have hfile : (∃ file, (records.output config sources).find? package = some file) ↔
      (records.bodies config).contains package = true := by
    rw [find?_output, SortedMap.contains_iff]
    simp [Option.map_eq_some_iff]
  rw [hfile, contains_bodies, Bool.or_eq_true, Bool.and_eq_true, or_comm, List.any_eq_true]
  simp only [beq_iff_eq, Bool.not_eq_true', List.isEmpty_eq_false_iff, and_comm]

/-- Where each directory has its group, the files are those of the directories. -/
theorem groups_output {directories : List Directory} {group : Directory → MessageGroup}
    (h : records.groups = directories.map group) :
    Output.Groups config sources directories group records.enums
      (records.output config sources) where
  packages := fun package => by
    rw [exists_file_iff, h]
    simp
  content := fun package file hfile => by
    rw [(records.holds_output config sources).1 package file hfile, code, String.join_append,
      messagesIn, enumsIn, h, List.filter_map, List.flatMap_map]
    split
    · rfl
    · rfl

end GeneratedRecords

def Directory.groupIn (config : Config) (set : DirectorySet) (state : GenerationState)
    (directory : Directory) : MessageGroup :=
  match (directory.site.messageGroup config set state).1 with
  | .ok group => group
  | .error _ => ⟨config.basePackage, []⟩

theorem SharedEnum.forall₂_of_gather {definitions : List SharedEnum} {enums : List PackageEnum}
    (h : GenerationErrors.gather (definitions.map fun definition =>
      definition.build.mapError fun error => [error]) = .ok enums) :
    List.Forall₂ (fun definition enum => SharedEnum.build definition = .ok enum)
      definitions enums := by
  have houtcomes : List.Forall₂ (fun definition enum =>
      ((SharedEnum.build definition).mapError fun error => [error]) =
        (.ok enum : Except GenerationErrors PackageEnum)) definitions enums := by
    refine List.forall₂_map_left_iff.1 (List.forall₂_map_right_iff.1 ?_)
    rw [GenerationErrors.gather_eq_ok_iff.1 h]
    exact List.forall₂_refl _
  refine houtcomes.imp fun definition enum heq => ?_
  cases hbuild : SharedEnum.build definition with
  | ok built =>
      rw [hbuild] at heq
      cases heq
      rfl
  | error fault =>
      rw [hbuild] at heq
      cases heq

namespace Tree

/-- Where a run is successful, each directory has its group in the last state. -/
theorem groups_eq_map {state ended : GenerationState}
    {outcomes : List (Except GenerationErrors MessageGroup)} {groups : List MessageGroup}
    (hrun : set.messageGroups config set.directories state = (outcomes, ended))
    (hgather : GenerationErrors.gather outcomes = .ok groups) :
    groups = set.directories.map (Directory.groupIn config set ended) ∧
      ∀ directory ∈ set.directories, directory.site.messageGroup config set ended =
        (.ok (directory.groupIn config set ended), ended) := by
  have hoften : List.Forall₂ (fun directory outcome =>
      directory.site.messageGroup config set (set.messageGroups config set.directories state).2 =
        (outcome, (set.messageGroups config set.directories state).2))
      set.directories (set.messageGroups config set.directories state).1 :=
    DirectorySet.forall₂_messageGroup set.directories state
  rw [hrun, GenerationErrors.gather_eq_ok_iff.1 hgather, List.forall₂_map_right_iff] at hoften
  have hgroups : groups = set.directories.map (Directory.groupIn config set ended) := by
    rw [← List.map_id groups]
    refine map_eq_of_forall₂ (fun directory group hgives => ?_) hoften
    rw [Directory.groupIn, hgives, id]
  rw [hgroups, List.forall₂_map_right_iff, List.forall₂_same] at hoften
  exact ⟨hgroups, hoften⟩

/-- A run that succeeds tells its files in its last state: every directory has one group there, in
another package than the shared enums, and these groups and the enums are what the files hold. -/
theorem grouped_of_generate {declared : Node} (htree : Tree.ofNode declared = .ok tree)
    (hslash : tree.SlashFree) {sources : Sources} {ledger : Ledger} {output : Output}
    (h : (tree.generate config sources ledger).1 = .ok output) :
    ∃ start ended group enums, Registry.ready config (tree.directories config) = .ok start ∧
      (tree.directories config).output config sources ⟨start, ledger⟩ = (.ok output, ended) ∧
      ((tree.directories config).directories.map Directory.path).Nodup ∧
      (∀ directory ∈ (tree.directories config).directories,
        directory.Has config (tree.directories config) ended (group directory) ∧
        (group directory).package ≠ config.enumPackage) ∧
      List.Forall₂ (fun definition enum => SharedEnum.build definition = .ok enum)
        ended.registry.sharedEnums.values enums ∧
      enums.map PackageEnum.name = ended.registry.sharedEnums.keys ∧
      output.Groups config sources (tree.directories config).directories group enums := by
  have hroot := Tree.distinct_root htree
  obtain ⟨records, hrecords, rfl⟩ := Tree.exists_records_of_generate h
  obtain ⟨start, outcomes, ended, hready, hrun, hgather, henums, _⟩ :=
    Tree.of_generateRecords hrecords
  have hsame : (tree.directories config).records config ⟨start, ledger⟩ = (.ok records, ended) := by
    simp only [DirectorySet.records, hrun, hgather, henums]
    rfl
  obtain ⟨_, hnamed⟩ := Tree.namedBy_of_records (Registry.enumsTraced_ready _ hready) hsame
  have hfits := Tree.fits_of_messageGroups hroot hslash hready hrun hgather henums
  obtain ⟨hgroups, hgives⟩ := groups_eq_map hrun hgather
  refine ⟨start, ended, Directory.groupIn config (tree.directories config) ended, records.enums,
    hready, ?_, ?_, fun directory hd => ?_, SharedEnum.forall₂_of_gather henums,
    Registry.names_buildSharedEnums hnamed.traced.recorded henums,
    GeneratedRecords.groups_output hgroups⟩
  · simp only [DirectorySet.output, hsame]
    rfl
  · exact DirectorySet.nodup_paths hroot hslash
  · have hall := hnamed.gives
    rw [hgroups, List.forall₂_map_right_iff, List.forall₂_same] at hall
    obtain ⟨hpackage, howners⟩ := (hall directory hd).map_owners hroot hslash hd
    refine ⟨⟨hgives directory hd, hpackage, howners⟩, fun hsame => ?_⟩
    -- the group would hold a message, and the package of shared enums has none
    have hnone := hfits.messagesIn_enumPackage
    rw [GeneratedRecords.messagesIn, List.flatMap_eq_nil_iff] at hnone
    have hmem : directory.groupIn config (tree.directories config) ended ∈ records.groups :=
      hgroups ▸ List.mem_map_of_mem hd
    rw [hnone _ (List.mem_filter.2 ⟨hmem, beq_iff_eq.2 hsame⟩)] at howners
    simp [Directory.owners] at howners

theorem grouped_of_generate_keyed_list :
    let color := Node.leaf "color" (.typedefEnum "color" [⟨"red", 0⟩])
    let id := Node.leaf "id" .string
    let declared := Node.module "m" [Node.container "top" [Node.list "item" ["id"] [color, id]]]
    let tree := Tree.copyOf declared
    let set := tree.directories {}
    Tree.ofNode declared = .ok tree ∧ tree.SlashFree ∧
      ∃ output, (tree.generate {} {} ∅).1 = .ok output ∧
      ∃ start ended group enums, Registry.ready {} set = .ok start ∧
        set.output {} {} ⟨start, ∅⟩ = (.ok output, ended) ∧
        (set.directories.map Directory.path).Nodup ∧
        (∀ directory ∈ set.directories, directory.Has {} set ended (group directory) ∧
          (group directory).package ≠ Config.enumPackage {}) ∧
        List.Forall₂ (fun definition enum => SharedEnum.build definition = .ok enum)
          ended.registry.sharedEnums.values enums ∧
        enums.map PackageEnum.name = ended.registry.sharedEnums.keys ∧
        output.Groups {} {} set.directories group enums := by
  intro color id declared tree set
  have htree : Tree.ofNode declared = .ok tree :=
    Tree.ofNode_eq rfl (by decide +kernel)
  have hslash : tree.SlashFree := slashFree_of_sites (by decide +kernel)
  have hsome : (tree.generate {} {} ∅).1.toOption.isSome = true := by decide +kernel
  obtain ⟨output, hrun⟩ := exists_eq_ok_of_isSome hsome
  exact ⟨htree, hslash, output, hrun, grouped_of_generate htree hslash hrun⟩

end Tree

end YangToProto

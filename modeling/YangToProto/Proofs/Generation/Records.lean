import YangToProto.Proofs.Generation.Messages
import YangToProto.Proofs.Generation.Resolution
import YangToProto.Proofs.Naming.SharedEnums

/-!
# Records of a run

The messages of a run belong to the owners of the directories that are drafted, one message to each
owner in order (`Tree.forall₂_madeFor`). A directory is looked up by its path text before it is
drafted; where no name holds a slash, that is the directory itself, and the owners are those of the
tree (`Tree.owners_directories`).
-/

namespace YangToProto

variable {config : Config} {tree : Tree} {set : DirectorySet}
  {asks : Site → LeafType → Prop} {registry final : Registry}

namespace DirectorySet

/-- What the path texts of the directories lead to, in order. These directories are drafted. -/
def drafted (set : DirectorySet) : List Directory :=
  set.directories.filterMap fun directory => set.find? directory.site.pathText

def owners (config : Config) (set : DirectorySet) : List Owner :=
  set.drafted.flatMap (Directory.owners config.compressPaths)

/-- The leaf is among what the messages have fields for, and has the type. -/
structure Asks (config : Config) (set : DirectorySet) (leaf : Site) (type : LeafType) : Prop where
  emitted : ∃ owner ∈ set.owners config, leaf ∈ owner.fields config set
  isLeaf : leaf.kind.isLeaf = true
  type : leaf.node.type = some type

theorem mem_of_find? {path : String} {directory : Directory}
    (h : set.find? path = some directory) : directory ∈ set.directories :=
  List.mem_reverse.1 (List.mem_of_find?_eq_some h)

theorem mem_drafted_of_find? {directory found : Directory} (hd : directory ∈ set.directories)
    (h : set.find? directory.site.pathText = some found) : found ∈ set.drafted :=
  List.mem_filterMap.2 ⟨directory, hd, h⟩

end DirectorySet

/-- The messages of the records, each with the package of its file. -/
def GeneratedRecords.messages (records : GeneratedRecords) : List (String × Message) :=
  records.groups.flatMap fun group => group.messages.map fun message => (group.package, message)

/-!
## One directory
-/

theorem Directory.registry_messages (config : Config) (set : DirectorySet) (directory : Directory)
    (state : GenerationState) :
    (directory.messages config set state).2.registry =
      (directory.draft config set state.registry).2 := by
  change _ = ((directory.draft config set).run state.registry).2
  rw [messages]
  cases (directory.draft config set).run state.registry with
  | mk outcome registry =>
      cases outcome with
      | error errors => rfl
      | ok draft => rfl

/-- The group is what drafting gives in the registry for the directory that the path text of a
directory leads to. -/
inductive DirectorySet.Gives (config : Config) (set : DirectorySet) (registry : Registry)
    (directory : Directory) : MessageGroup → Prop where
  | mk {found : Directory} {draft : MessageDraft} {tags : List UInt32} {package : String}
      (hfound : set.find? directory.site.pathText = some found)
      (hdraft : found.draft config set registry = (.ok draft, registry))
      (htags : tags.length = draft.scope.fields.length)
      (hpackage : registry.packages.find? (directory.site.anchor config.compressPaths) =
        some package) :
      Gives config set registry directory ⟨package, draft.wrappers ++ [draft.own tags]⟩

theorem Site.messageGroup_of_find? {site : Site} {directory : Directory}
    (hmodule : site.ancestors.isEmpty = false) (hfind : set.find? site.pathText = some directory)
    (state : GenerationState) :
    site.messageGroup config set state =
      match directory.messages config set state with
      | (.error errors, reached) => (.error errors, reached)
      | (.ok messages, reached) =>
        (.ok ⟨(Registry.packageFor config.compressPaths site reached.registry).1, messages⟩,
          ⟨(Registry.packageFor config.compressPaths site reached.registry).2,
            reached.ledger⟩) := by
  rw [messageGroup, hmodule, hfind]
  rfl

theorem Site.of_messageGroup {site : Site} {state ended : GenerationState} {group : MessageGroup}
    (hrun : site.messageGroup config set state = (.ok group, ended)) :
    ∃ found draft tags middle package, set.find? site.pathText = some found ∧
      found.draft config set state.registry = (.ok draft, middle) ∧
      tags.length = draft.scope.fields.length ∧
      Registry.packageFor config.compressPaths site middle = (package, ended.registry) ∧
      group = ⟨package, draft.wrappers ++ [draft.own tags]⟩ := by
  obtain ⟨found, reached, hfind, hmessages, hfor, _⟩ := Site.messages_of_messageGroup hrun
  obtain ⟨draft, hdraft, hmade⟩ := Directory.of_messages hmessages
  obtain ⟨tags, hassign, hown⟩ := MessageDraft.of_messages hmade
  have hlength := congrArg List.length
    (state.ledger.map_some_eq_of_assign _ _ (congrArg Prod.fst hassign))
  rw [List.length_map, List.length_map, List.length_map] at hlength
  exact ⟨found, draft, tags, reached.registry, group.package, hfind, hdraft, hlength, hfor,
    by rw [← hown]⟩

theorem Site.grows_registry {site : Site} (h : ∀ found, set.find? site.pathText = some found →
      Site.AllAskAs asks config set (found.ownFields config.compressPaths))
    (state : GenerationState) :
    state.registry.Grows asks (site.messageGroup config set state).2.registry := by
  rw [Site.messageGroup]
  split
  · exact .refl
  · cases hfind : set.find? site.pathText with
    | none => exact .refl
    | some found =>
        have hgrows := (Directory.steady_draft (h found hfind)).grows state.registry
        rw [← found.registry_messages config set state] at hgrows
        dsimp only
        cases hmessages : found.messages config set state with
        | mk outcome reached =>
            rw [hmessages] at hgrows
            cases outcome with
            | error errors => exact hgrows
            | ok messages => exact hgrows.package config.compressPaths site

namespace DirectorySet

/-- What the leaves in the messages of some directories may ask for. -/
def AllAskAs (asks : Site → LeafType → Prop) (config : Config) (set : DirectorySet)
    (directories : List Directory) : Prop :=
  ∀ directory ∈ directories, ∀ found, set.find? directory.site.pathText = some found →
    Site.AllAskAs asks config set (found.ownFields config.compressPaths)

theorem grows_registry {directories : List Directory} (h : set.AllAskAs asks config directories)
    (state : GenerationState) :
    state.registry.Grows asks (set.messageGroups config directories state).2.registry := by
  induction directories generalizing state with
  | nil => exact .refl
  | cons directory rest ih =>
      have hfirst := Site.grows_registry (h directory List.mem_cons_self) state
      rw [messageGroups]
      cases hrun : directory.site.messageGroup config set state with
      | mk outcome reached =>
          rw [hrun] at hfirst
          exact hfirst.trans (ih (fun other ho => h other (List.mem_cons_of_mem _ ho)) reached)

/-- In any registry that has all names of a run, the groups of the run are what drafting gives for
its directories. -/
theorem forall₂_gives {directories : List Directory} {state ended : GenerationState}
    {outcomes : List (Except GenerationErrors MessageGroup)} {groups : List MessageGroup}
    (hrun : set.messageGroups config directories state = (outcomes, ended))
    (hgather : GenerationErrors.gather outcomes = .ok groups)
    (hkept : ended.registry.KeptBy final) :
    List.Forall₂ (set.Gives config final) directories groups := by
  induction directories generalizing state outcomes groups with
  | nil =>
      cases hrun
      cases hgather
      exact .nil
  | cons directory rest ih =>
      obtain ⟨group, more, reached, others, rfl, hfirst, hothers, hmore⟩ :=
        of_messageGroups_cons hrun hgather
      refine .cons ?_ (ih hothers hmore)
      obtain ⟨found, draft, tags, middle, package, hfound, hdraft, hlength, hpackage, rfl⟩ :=
        Site.of_messageGroup hfirst
      have hrest : set.AllAskAs Site.anyLeaf config rest :=
        fun _ _ found _ => Site.allAskAs_anyLeaf _
      have hgrows := grows_registry hrest reached
      rw [hothers] at hgrows
      have hlast := hgrows.keptBy.trans hkept
      obtain ⟨hkeptPackage, hfind⟩ := Registry.keptBy_packageFor hpackage
      have hsteady : Steady Site.anyLeaf (found.draft config set) :=
        Directory.steady_draft (Site.allAskAs_anyLeaf _)
      exact .mk hfound (hsteady.again hdraft (hkeptPackage.trans hlast)) hlength
        (hlast.packages _ _ hfind)

/-- What holds of the messages of a draft and the owners of its directory holds of a group and the
owners of the directory that was drafted. -/
theorem Gives.forall₂_of_draft {R : Owner → Message → Prop}
    (hdraft : ∀ site draft tags, site.isMessage config.compressPaths = true →
      (Directory.ofSite config.compressPaths site).draft config (tree.directories config)
        registry = (.ok draft, registry) →
      tags.length = draft.scope.fields.length →
      List.Forall₂ R ((Directory.ofSite config.compressPaths site).owners config.compressPaths)
        (draft.wrappers ++ [draft.own tags]))
    {directory : Directory} {group : MessageGroup}
    (h : (tree.directories config).Gives config registry directory group) :
    ∃ found, (tree.directories config).find? directory.site.pathText = some found ∧
      List.Forall₂ R (found.owners config.compressPaths) group.messages := by
  obtain ⟨hfound, hrun, hlength, _⟩ := h
  obtain ⟨site, _, hmessage, rfl⟩ := mem_collect_iff.1 (mem_of_find? hfound)
  exact ⟨_, hfound, hdraft site _ _ hmessage hrun hlength⟩

/-- Where no name holds a slash, a group and its messages are in one package. -/
theorem Gives.package_eq (hroot : tree.root.Distinct) (hslash : tree.SlashFree)
    {directory : Directory} (hd : directory ∈ (tree.directories config).directories)
    {group : MessageGroup} (h : (tree.directories config).Gives config registry directory group) :
    ∀ message ∈ group.messages, message.package = group.package := by
  obtain ⟨hfound, hdraft, hlength, hpackage⟩ := h
  obtain ⟨site, _, hmessage, rfl⟩ := mem_collect_iff.1 hd
  have hfind := find?_collect hroot hslash hd
  obtain rfl := Option.some.inj (hfind.symm.trans hfound)
  obtain ⟨hown, hmessages⟩ := Directory.forall₂_madeFor hdraft hlength
  obtain rfl := Option.some.inj (hown.symm.trans hpackage)
  intro message hmem
  obtain ⟨owner, _, _, hsame⟩ := exists_mem_left_of_forall₂ hmessages hmem
  exact hsame

theorem forall₂_of_draft {R : Owner → Message → Prop}
    (hdraft : ∀ site draft tags, site.isMessage config.compressPaths = true →
      (Directory.ofSite config.compressPaths site).draft config (tree.directories config)
        registry = (.ok draft, registry) →
      tags.length = draft.scope.fields.length →
      List.Forall₂ R ((Directory.ofSite config.compressPaths site).owners config.compressPaths)
        (draft.wrappers ++ [draft.own tags]))
    {directories : List Directory} {groups : List MessageGroup}
    (h : List.Forall₂ ((tree.directories config).Gives config registry) directories groups) :
    List.Forall₂ (fun owner placed => R owner placed.2)
      ((directories.filterMap fun directory =>
        (tree.directories config).find? directory.site.pathText).flatMap
          (Directory.owners config.compressPaths))
      (groups.flatMap fun group => group.messages.map fun message => (group.package, message)) := by
  induction h with
  | nil => exact .nil
  | @cons directory group rest _ hfirst _ ih =>
      obtain ⟨found, hfound, hmessages⟩ := hfirst.forall₂_of_draft hdraft
      have hplaced : List.Forall₂ (fun owner placed => R owner placed.2)
          (found.owners config.compressPaths)
          (group.messages.map fun message => (group.package, message)) :=
        List.forall₂_map_right_iff.2 hmessages
      have hsplit : (directory :: rest).filterMap (fun directory =>
          (tree.directories config).find? directory.site.pathText) =
            found :: rest.filterMap (fun directory =>
              (tree.directories config).find? directory.site.pathText) :=
        List.filterMap_cons_some hfound
      rw [hsplit, List.flatMap_cons, List.flatMap_cons]
      exact List.rel_append hplaced ih

/-- The messages of a directory are what the registry has for its owners, and stand in the packages
of their homes. -/
theorem forall₂_placed {site : Site} {draft : MessageDraft} {tags : List UInt32}
    (hmessage : site.isMessage config.compressPaths = true)
    (hrun : (Directory.ofSite config.compressPaths site).draft config (tree.directories config)
      registry = (.ok draft, registry))
    (hlength : tags.length = draft.scope.fields.length) :
    List.Forall₂ (fun owner message =>
        Message.MadeFor config (tree.directories config) registry owner message ∧
        registry.package? config.compressPaths owner = some message.package)
      ((Directory.ofSite config.compressPaths site).owners config.compressPaths)
      (draft.wrappers ++ [draft.own tags]) := by
  obtain ⟨hpackage, hmessages⟩ := Directory.forall₂_madeFor hrun hlength
  refine List.forall₂_iff_zip.2 ⟨hmessages.length_eq, fun {owner message} hmem => ?_⟩
  obtain ⟨hmade, hsame⟩ := List.forall₂_zip hmessages hmem
  refine ⟨hmade, ?_⟩
  rw [Registry.package?, (Directory.home?_of_mem_owners hmessage (List.of_mem_zip hmem).1).1, hsame]
  exact hpackage

theorem forall₂_madeFor {directories : List Directory} {groups : List MessageGroup}
    (h : List.Forall₂ ((tree.directories config).Gives config registry) directories groups) :
    List.Forall₂ (fun owner placed =>
        Message.MadeFor config (tree.directories config) registry owner placed.2 ∧
        registry.package? config.compressPaths owner = some placed.2.package)
      ((directories.filterMap fun directory =>
        (tree.directories config).find? directory.site.pathText).flatMap
          (Directory.owners config.compressPaths))
      (groups.flatMap fun group => group.messages.map fun message => (group.package, message)) :=
  forall₂_of_draft (R := fun owner message =>
    Message.MadeFor config (tree.directories config) registry owner message ∧
      registry.package? config.compressPaths owner = some message.package)
    (fun _ _ _ => forall₂_placed) h

/-- Without slashes in names every directory is drafted for itself. -/
theorem drafted_collect (hroot : tree.root.Distinct) (hslash : tree.SlashFree) :
    (tree.directories config).drafted = (tree.directories config).directories := by
  have hself : ∀ directory ∈ (tree.directories config).directories,
      (tree.directories config).find? directory.site.pathText = some directory := by
    intro directory hd
    obtain ⟨site, _, _, rfl⟩ := mem_collect_iff.1 hd
    exact find?_collect hroot hslash hd
  rw [drafted, List.filterMap_congr hself, List.filterMap_some]

end DirectorySet

namespace Tree

theorem owners_directories (hroot : tree.root.Distinct) (hslash : tree.SlashFree) :
    (tree.directories config).owners config = tree.owners config := by
  rw [DirectorySet.owners, DirectorySet.drafted_collect hroot hslash]
  rfl

/-- The leaves that may ask for shared enums are those that messages have fields for. -/
theorem allAskAs (config : Config) (tree : Tree) :
    (tree.directories config).AllAskAs ((tree.directories config).Asks config) config
      (tree.directories config).directories := by
  intro directory hd found hfound field hfield
  have hdrafted := DirectorySet.mem_drafted_of_find? hd hfound
  have howner : ∀ owner ∈ found.owners config.compressPaths,
      owner ∈ (tree.directories config).owners config := fun owner howner =>
    List.mem_flatMap.2 ⟨found, hdrafted, howner⟩
  obtain ⟨site, _, _, rfl⟩ := DirectorySet.mem_collect_iff.1 (DirectorySet.mem_of_find? hfound)
  constructor
  · intro type hkind htype
    have hown := howner (.directory site) (Directory.mem_owners_iff.2 (Or.inr rfl))
    exact ⟨⟨_, hown, List.mem_map_of_mem hfield⟩, hkind, htype⟩
  · intro hkeyed leaf hleaf type hkind htype
    have hkeys := howner (.keys field.2)
      (Directory.mem_owners_iff.2 (Or.inl ⟨field, hfield, hkeyed, rfl⟩))
    exact ⟨⟨_, hkeys, hleaf⟩, hkind, htype⟩

end Tree

/-!
## Whole runs
-/

/-- The records are what the registry has: its names are in the messages, and its shared enums are
built. -/
structure GeneratedRecords.NamedBy (config : Config) (tree : Tree) (registry : Registry)
    (records : GeneratedRecords) : Prop where
  gives : List.Forall₂ ((tree.directories config).Gives config registry)
    (tree.directories config).directories records.groups
  traced : registry.EnumsTraced ((tree.directories config).Asks config)
  enums : registry.buildSharedEnums = .ok records.enums

theorem DirectorySet.of_records {state ended : GenerationState} {records : GeneratedRecords}
    (h : set.records config state = (.ok records, ended)) :
    ∃ outcomes, set.messageGroups config set.directories state = (outcomes, ended) ∧
      GenerationErrors.gather outcomes = .ok records.groups ∧
      ended.registry.buildSharedEnums = .ok records.enums := by
  rw [DirectorySet.records] at h
  cases hgroups : set.messageGroups config set.directories state with
  | mk outcomes reached =>
      simp only [hgroups] at h
      cases hboth : both (GenerationErrors.gather outcomes) reached.registry.buildSharedEnums with
      | error errors =>
          rw [hboth] at h
          cases h
      | ok values =>
          rw [hboth] at h
          cases h
          obtain ⟨hgather, henums⟩ := both_eq_ok hboth
          exact ⟨outcomes, rfl, hgather, henums⟩

/-- A run that succeeds lets its registry grow, and its records are what the registry has in the
end. -/
theorem Tree.namedBy_of_records {state ended : GenerationState} {records : GeneratedRecords}
    (hstart : state.registry.EnumsTraced ((tree.directories config).Asks config))
    (h : (tree.directories config).records config state = (.ok records, ended)) :
    state.registry.Grows ((tree.directories config).Asks config) ended.registry ∧
      records.NamedBy config tree ended.registry := by
  obtain ⟨outcomes, hrun, hgather, henums⟩ := DirectorySet.of_records h
  have hgrows := DirectorySet.grows_registry (tree.allAskAs config) state
  rw [hrun] at hgrows
  exact ⟨hgrows, DirectorySet.forall₂_gives hrun hgather (.refl _), hgrows.enumsTraced hstart,
    henums⟩

theorem Tree.exists_namedBy_of_generateRecords {ledger later : Ledger}
    {records : GeneratedRecords}
    (h : tree.generateRecords config ledger = (.ok records, later)) :
    ∃ start final, Registry.ready config (tree.directories config) = .ok start ∧
      start.Grows ((tree.directories config).Asks config) final ∧
      records.NamedBy config tree final := by
  rw [Tree.generateRecords] at h
  cases hready : Registry.ready config (tree.directories config) with
  | error fault =>
      rw [hready] at h
      cases h
  | ok start =>
      rw [hready] at h
      dsimp only at h
      cases hrun : (tree.directories config).records config ⟨start, ledger⟩ with
      | mk outcome ended =>
          rw [hrun] at h
          cases h
          obtain ⟨hgrows, hnamed⟩ :=
            Tree.namedBy_of_records (Registry.enumsTraced_ready _ hready) hrun
          exact ⟨start, ended.registry, rfl, hgrows, hnamed⟩

namespace GeneratedRecords

variable {records : GeneratedRecords}

/-- The messages are what the registry has for their owners. -/
theorem NamedBy.madeFor (h : records.NamedBy config tree registry) :
    List.Forall₂ (fun owner placed =>
        Message.MadeFor config (tree.directories config) registry owner placed.2 ∧
        registry.package? config.compressPaths owner = some placed.2.package)
      ((tree.directories config).owners config) records.messages :=
  DirectorySet.forall₂_madeFor h.gives

/-- Where no name holds a slash, a message stands in the package that it says. -/
theorem NamedBy.package_eq (h : records.NamedBy config tree registry)
    (hroot : tree.root.Distinct) (hslash : tree.SlashFree) :
    ∀ placed ∈ records.messages, placed.2.package = placed.1 := by
  intro placed hplaced
  obtain ⟨group, hgroup, hmem⟩ := List.mem_flatMap.1 hplaced
  obtain ⟨message, hmessage, rfl⟩ := List.mem_map.1 hmem
  have hzip := List.forall₂_iff_zip.1 h.gives
  obtain ⟨directory, hd, hgives⟩ := exists_mem_left_of_forall₂ h.gives hgroup
  exact hgives.package_eq hroot hslash hd message hmessage

/-- The message stands in a package and is the one made for an owner. -/
def Makes (config : Config) (tree : Tree) (records : GeneratedRecords) (owner : Owner)
    (package : String) (message : Message) : Prop :=
  (owner, package, message) ∈ ((tree.directories config).owners config).zip records.messages

/-- A message has a field for the node at a site. -/
def HasField (config : Config) (tree : Tree) (records : GeneratedRecords) (site : Site)
    (field : Field) : Prop :=
  ∃ owner package message, records.Makes config tree owner package message ∧
    (site, field) ∈ (owner.fields config (tree.directories config)).zip message.fields

theorem NamedBy.of_makes (h : records.NamedBy config tree registry) {owner : Owner}
    {package : String} {message : Message}
    (hmakes : records.Makes config tree owner package message) :
    message.MadeFor config (tree.directories config) registry owner ∧
      registry.package? config.compressPaths owner = some message.package :=
  List.forall₂_zip h.madeFor hmakes

/-- Each owner has a message. -/
theorem NamedBy.exists_makes (h : records.NamedBy config tree registry) {owner : Owner}
    (howner : owner ∈ (tree.directories config).owners config) :
    ∃ package message, records.Makes config tree owner package message := by
  rw [← List.map_fst_zip (Nat.le_of_eq h.madeFor.length_eq)] at howner
  obtain ⟨⟨_, package, message⟩, hmem, rfl⟩ := List.mem_map.1 howner
  exact ⟨package, message, hmem⟩

/-- Each site of an owner has a field in the owner's message. -/
theorem NamedBy.exists_field (h : records.NamedBy config tree registry) {owner : Owner}
    (howner : owner ∈ (tree.directories config).owners config) {site : Site}
    (hsite : site ∈ owner.fields config (tree.directories config)) :
    ∃ field, records.HasField config tree site field := by
  obtain ⟨package, message, hmakes⟩ := h.exists_makes howner
  rw [← List.map_fst_zip (Nat.le_of_eq (h.of_makes hmakes).1.fields.length_eq)] at hsite
  obtain ⟨⟨_, field⟩, hmem, rfl⟩ := List.mem_map.1 hsite
  exact ⟨field, owner, package, message, hmakes, hmem⟩

/-- A node that is among the fields of a container or list, as its path says, has a field in the
message. -/
theorem NamedBy.exists_field_of_path (h : records.NamedBy config tree registry)
    (hroot : tree.root.Distinct) (hslash : tree.SlashFree) {site field : Site}
    (hsite : tree.HasSite site) (hmessage : site.isMessage config.compressPaths = true)
    (hfield : tree.HasSite field)
    (hpath : field.path ∈ ((Directory.ofSite config.compressPaths site).ownFields
      config.compressPaths).map fun own => own.2.path) :
    ∃ emitted, records.HasField config tree field emitted := by
  obtain ⟨own, hown, hsame⟩ := List.mem_map.1 hpath
  have hunder := (Site.of_mem_fields hmessage (List.mem_filter.1 hown).1).2.1
  obtain rfl := Tree.eq_of_path_eq hroot (hsite.trans hunder) hfield hsame
  have hd := DirectorySet.mem_collect_iff.2 ⟨site, hsite, hmessage, rfl⟩
  have howner : Owner.directory site ∈ (tree.directories config).owners config := by
    rw [Tree.owners_directories hroot hslash]
    exact Tree.mem_owners_iff.2 ⟨_, hd, Directory.mem_owners_iff.2 (Or.inr rfl)⟩
  exact h.exists_field howner (List.mem_map_of_mem hown)

/-- What the field for a node refers to. -/
theorem NamedBy.for_of_hasField (h : records.NamedBy config tree registry) {site : Site}
    {field : Field} (hfield : records.HasField config tree site field) :
    ∃ (package : String) (imports : List String) (type : FieldType),
      type.For config registry package site ∧ type.ShownBy imports field.typeName := by
  obtain ⟨owner, package, message, hmakes, hmem⟩ := hfield
  obtain ⟨type, hfor, hshown⟩ := List.forall₂_zip (h.of_makes hmakes).1.fields hmem
  exact ⟨_, _, type, hfor, hshown⟩

end GeneratedRecords

end YangToProto

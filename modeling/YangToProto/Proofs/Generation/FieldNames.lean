import YangToProto.Proofs.Generation.Drafts
import YangToProto.Proofs.Ledger.History

/-!
# Names and tags of fields

The names of the fields of a directory's message depend on the names of its own fields only
(`Directory.protoNames`): each is sanitized, and in turn they claim what is free. The tags are those
that the ledger has in the end for these names (`Tree.tagged_generateRecords`).
-/

namespace YangToProto

variable {config : Config} {tree : Tree} {registry after : Registry}

/-- The names that the own fields of a directory get, in order. -/
def Directory.protoNames (compress : Bool) (directory : Directory) : List String :=
  NameSet.claimAll ∅ ((directory.ownFields compress).map fun field => Identifier.sanitize field.1)

/-- The fields of a directory's message have different names. -/
theorem Directory.nodup_protoNames (compress : Bool) (directory : Directory) :
    (directory.protoNames compress).Nodup :=
  NameSet.nodup_claimAll _ _

/-!
## Drafts
-/

namespace Scope

theorem addField_eq (scope : Scope) (schemaName typeName : String) (repeated : Bool)
    (options : List String) :
    (scope.addField schemaName typeName repeated options).fields.map UntaggedField.name =
        scope.fields.map UntaggedField.name ++
          [scope.fieldNames.firstFree (Identifier.sanitize schemaName)] ∧
      (scope.addField schemaName typeName repeated options).fieldNames =
        scope.fieldNames.add (scope.fieldNames.firstFree (Identifier.sanitize schemaName)) := by
  rw [addField, NameSet.claim_eq, List.map_append]
  exact ⟨rfl, rfl⟩

theorem addImport_eq (scope : Scope) (path : String) :
    (scope.addImport path).fields = scope.fields ∧
      (scope.addImport path).fieldNames = scope.fieldNames := by
  rw [addImport]
  split
  · exact ⟨rfl, rfl⟩
  · exact ⟨rfl, rfl⟩

/-- Whatever a draft brings, its field claims one name. -/
theorem accept_eq (scope : Scope) (draft : FieldDraft) :
    (scope.accept draft).fields.map UntaggedField.name =
        scope.fields.map UntaggedField.name ++
          [scope.fieldNames.firstFree (Identifier.sanitize draft.schemaName)] ∧
      (scope.accept draft).fieldNames = scope.fieldNames.add
        (scope.fieldNames.firstFree (Identifier.sanitize draft.schemaName)) := by
  obtain ⟨schemaName, type, repeated, options, wrapper⟩ := draft
  cases type with
  | reference typeName path =>
      cases path with
      | none => exact scope.addField_eq schemaName typeName repeated options
      | some path =>
          obtain ⟨hfields, hnames⟩ :=
            (scope.addField schemaName typeName repeated options).addImport_eq path
          rw [accept, hfields, hnames]
          exact scope.addField_eq schemaName typeName repeated options
  | embedded candidate values =>
      -- the enum of the field takes a name among the enums, where field names do not look
      exact addField_eq _ schemaName _ repeated options

theorem names_foldl_accept (drafts : List FieldDraft) (scope : Scope) :
    (drafts.foldl accept scope).fields.map UntaggedField.name =
      scope.fields.map UntaggedField.name ++ scope.fieldNames.claimAll
        (drafts.map fun draft => Identifier.sanitize draft.schemaName) := by
  induction drafts generalizing scope with
  | nil => simp
  | cons draft rest ih =>
      obtain ⟨hfields, hnames⟩ := scope.accept_eq draft
      rw [List.foldl_cons, ih, hfields, hnames, List.map_cons, NameSet.claimAll_cons,
        List.append_assoc, List.singleton_append]

theorem names_ofDrafts (drafts : List FieldDraft) :
    (ofDrafts drafts).fields.map UntaggedField.name =
      NameSet.claimAll ∅ (drafts.map fun draft => Identifier.sanitize draft.schemaName) :=
  names_foldl_accept drafts empty

end Scope

namespace Site

/-- A draft goes by the name of its field, it is repeated for lists and leaf-lists, and what it
brings besides is a key wrapper. -/
theorem shape_of_draft {set : DirectorySet} {path package fieldName : String} {field : Site}
    {draft : FieldDraft}
    (hrun : field.draft config set path package fieldName registry = (.ok draft, after)) :
    draft.schemaName = fieldName ∧
      (draft.repeated = true ↔ field.kind = .list ∨ field.kind = .leafList) ∧
      ∀ wrapper ∈ draft.wrapper.toList, wrapper.kind = .listKey := by
  cases hkind : field.kind with
  | list =>
      simp only [Site.draft, hkind] at hrun
      obtain ⟨reference, first, _, hrest⟩ := bind_eq_ok hrun
      by_cases hkeyed : field.node.isKeyedList = true
      · simp only [hkeyed, if_true] at hrest
        obtain ⟨wrapper, last, hwrapper, hpure⟩ := bind_eq_ok hrest
        obtain ⟨rfl, rfl⟩ := pure_eq_ok hpure
        obtain ⟨_, _, _, hrest⟩ := bind_eq_ok hwrapper
        obtain ⟨_, _, _, hrest⟩ := bind_eq_ok hrest
        obtain ⟨_, _, _, hpure⟩ := bind_eq_ok hrest
        obtain ⟨rfl, rfl⟩ := pure_eq_ok hpure
        refine ⟨rfl, by simp, fun other hother => ?_⟩
        rw [List.mem_singleton.1 hother]
        rfl
      · simp only [hkeyed] at hrest
        obtain ⟨rfl, rfl⟩ := pure_eq_ok hrest
        exact ⟨rfl, by simp, by simp⟩
  | container =>
      simp only [Site.draft, hkind] at hrun
      obtain ⟨_, _, _, hpure⟩ := bind_eq_ok hrun
      obtain ⟨rfl, rfl⟩ := pure_eq_ok hpure
      exact ⟨rfl, by simp, by simp⟩
  | leaf | leafList =>
      simp only [Site.draft, hkind] at hrun
      obtain ⟨_, _, _, hpure⟩ := bind_eq_ok hrun
      obtain ⟨rfl, rfl⟩ := pure_eq_ok hpure
      exact ⟨rfl, by simp, by simp⟩
  | module | anydata =>
      simp only [Site.draft, hkind] at hrun
      exact absurd hrun throw_ne_ok

theorem shape_of_drafts {set : DirectorySet} {path package : String}
    {fields : List (String × Site)} {outcomes : List (Except GenerationErrors FieldDraft)}
    {drafts : List FieldDraft}
    (hrun : Site.drafts config set path package fields registry = (outcomes, after))
    (hgather : GenerationErrors.gather outcomes = .ok drafts) :
    drafts.map FieldDraft.schemaName = fields.map Prod.fst ∧
      ∀ wrapper ∈ drafts.filterMap FieldDraft.wrapper, wrapper.kind = .listKey := by
  induction fields generalizing registry outcomes drafts with
  | nil =>
      cases hrun
      cases hgather
      exact ⟨rfl, by simp⟩
  | cons field rest ih =>
      obtain ⟨draft, more, middle, others, rfl, hfirst, hothers, hmore⟩ :=
        of_drafts_cons hrun hgather
      obtain ⟨hname, _, hkind⟩ := shape_of_draft hfirst
      obtain ⟨hnames, hkinds⟩ := ih hothers hmore
      constructor
      · rw [List.map_cons, List.map_cons, hname, hnames]
      · intro wrapper hwrapper
        obtain ⟨other, ho, hsome⟩ := List.mem_filterMap.1 hwrapper
        rcases List.mem_cons.1 ho with rfl | ho
        · exact hkind wrapper (by simp [hsome])
        · exact hkinds wrapper (List.mem_filterMap.2 ⟨other, ho, hsome⟩)

end Site

/-!
## Messages
-/

/-- The message of a directory has the directory's names, and the tags of a ledger for them. -/
structure Message.Tagged (compress : Bool) (ledger : Ledger) (directory : Directory)
    (message : Message) : Prop where
  names : message.fields.map Field.name = directory.protoNames compress
  tags : (message.fields.map fun field => some field.tag) =
    (directory.protoNames compress).map (ledger.tag? message.schemaPath)

theorem Message.Tagged.of_extends {compress : Bool} {ledger later : Ledger} {directory : Directory}
    {message : Message} (h : message.Tagged compress ledger directory)
    (hextends : ledger.Extends later) : message.Tagged compress later directory where
  names := h.names
  tags := by
    rw [h.tags]
    refine List.map_congr_left fun name hname => ?_
    have hmem := List.mem_map_of_mem (f := ledger.tag? message.schemaPath) hname
    rw [← h.tags] at hmem
    obtain ⟨field, _, htag⟩ := List.mem_map.1 hmem
    rw [← htag, Ledger.tag?_eq]
    rw [Ledger.tag?_eq] at htag
    exact ((hextends _).kept htag.symm).symm

theorem UntaggedField.map_zipWith_withTag {fields : List UntaggedField} {tags : List UInt32}
    (h : tags.length = fields.length) :
    (List.zipWith UntaggedField.withTag fields tags).map Field.name =
        fields.map UntaggedField.name ∧
      (List.zipWith UntaggedField.withTag fields tags).map Field.tag = tags := by
  induction fields generalizing tags with
  | nil =>
      obtain rfl := List.length_eq_zero_iff.1 h
      exact ⟨rfl, rfl⟩
  | cons field rest ih =>
      cases tags with
      | nil => simp at h
      | cons tag others =>
          obtain ⟨hnames, htags⟩ := ih (Nat.succ.inj h)
          rw [List.zipWith_cons_cons, List.map_cons, List.map_cons, List.map_cons, hnames, htags]
          exact ⟨rfl, rfl⟩

theorem Directory.shape_of_draft {set : DirectorySet} {directory : Directory}
    {draft : MessageDraft} (hrun : directory.draft config set registry = (.ok draft, after)) :
    draft.schemaPath = directory.path ∧
      draft.scope.fields.map UntaggedField.name = directory.protoNames config.compressPaths ∧
      ∀ wrapper ∈ draft.wrappers, wrapper.kind = .listKey := by
  obtain ⟨name, first, _, hrest⟩ := bind_eq_ok hrun
  obtain ⟨package, second, _, hrest⟩ := bind_eq_ok hrest
  obtain ⟨outcomes, third, houtcomes, hrest⟩ := bind_eq_ok hrest
  obtain ⟨fields, fourth, hfields, hpure⟩ := bind_eq_ok hrest
  obtain ⟨hgather, rfl⟩ := lift_except_eq_ok hfields
  obtain ⟨rfl, rfl⟩ := pure_eq_ok hpure
  obtain ⟨hnames, hkinds⟩ := Site.shape_of_drafts (lift_state_eq_ok houtcomes) hgather
  have hsanitized := congrArg (List.map Identifier.sanitize) hnames
  rw [List.map_map, List.map_map] at hsanitized
  exact ⟨rfl, (Scope.names_ofDrafts fields).trans (congrArg (NameSet.claimAll ∅) hsanitized),
    hkinds⟩

/-- A draft becomes its key wrappers and, last, the message with the tags that the ledger then has
for its names. -/
theorem MessageDraft.shape_of_messages {draft : MessageDraft} {ledger later : Ledger}
    {messages : List Message} (hrun : draft.messages ledger = (.ok messages, later)) :
    ∃ own : Message, messages = draft.wrappers ++ [own] ∧ own.kind = .directory ∧
      own.schemaPath = draft.schemaPath ∧
      own.fields.map Field.name = draft.scope.fields.map UntaggedField.name ∧
      (own.fields.map fun field => some field.tag) =
        (draft.scope.fields.map UntaggedField.name).map (later.tag? draft.schemaPath) := by
  obtain ⟨tags, hassign, rfl⟩ := MessageDraft.of_messages hrun
  have htags := ledger.map_some_eq_of_assign draft.schemaPath
    (draft.scope.fields.map UntaggedField.name) (congrArg Prod.fst hassign)
  rw [hassign] at htags
  have hlength := congrArg List.length htags
  rw [List.length_map, List.length_map, List.length_map] at hlength
  obtain ⟨hnames, hmap⟩ := UntaggedField.map_zipWith_withTag hlength
  have hsome := congrArg (List.map some) hmap
  rw [List.map_map] at hsome
  exact ⟨_, rfl, rfl, rfl, hnames, hsome.trans htags⟩

/-- The messages of a directory are key wrappers and, last, its own message. -/
theorem Directory.tagged_messages {set : DirectorySet} {directory : Directory}
    {state ended : GenerationState} {messages : List Message}
    (hrun : directory.messages config set state = (.ok messages, ended)) :
    ∃ own wrappers, messages = wrappers ++ [own] ∧ own.kind = .directory ∧
      own.schemaPath = directory.path ∧ (∀ wrapper ∈ wrappers, wrapper.kind = .listKey) ∧
      own.Tagged config.compressPaths ended.ledger directory := by
  obtain ⟨draft, hdraft, hmessages⟩ := Directory.of_messages hrun
  obtain ⟨hpath, hnames, hkinds⟩ := Directory.shape_of_draft hdraft
  obtain ⟨own, rfl, hkind, hschema, hown, htags⟩ := MessageDraft.shape_of_messages hmessages
  rw [hnames] at hown htags
  refine ⟨own, _, rfl, hkind, hschema.trans hpath, hkinds, hown, ?_⟩
  rw [hschema]
  exact htags

/-!
## Runs
-/

/-- The messages of directories in some groups are tagged by a ledger. -/
def DirectorySet.Tags (config : Config) (set : DirectorySet) (ledger : Ledger)
    (group : MessageGroup) : Prop :=
  ∀ message ∈ group.messages, message.kind = .directory →
    ∃ directory, set.find? message.schemaPath = some directory ∧
      message.Tagged config.compressPaths ledger directory

theorem DirectorySet.path_eq_of_find? {set : DirectorySet} {path : String} {directory : Directory}
    (h : set.find? path = some directory) : directory.path = path := by
  simpa using List.find?_some h

theorem Site.tagged_messageGroup {set : DirectorySet} {site : Site} {state ended : GenerationState}
    {group : MessageGroup} (hrun : site.messageGroup config set state = (.ok group, ended)) :
    set.Tags config ended.ledger group ∧
      ∃ message ∈ group.messages, message.kind = .directory ∧
        message.schemaPath = site.pathText := by
  obtain ⟨directory, reached, hfind, hmessages, _, hledger⟩ := Site.messages_of_messageGroup hrun
  have hpath := DirectorySet.path_eq_of_find? hfind
  obtain ⟨own, wrappers, hgroup, hkind, hschema, hwrappers, htagged⟩ :=
    Directory.tagged_messages hmessages
  rw [hledger] at htagged
  rw [DirectorySet.Tags, hgroup]
  refine ⟨fun message hmessage hdirectory => ?_, own, ?_, hkind, hschema.trans hpath⟩
  · rcases List.mem_append.1 hmessage with hmessage | hmessage
    · rw [hwrappers message hmessage] at hdirectory
      cases hdirectory
    · obtain rfl := List.mem_singleton.1 hmessage
      exact ⟨directory, by rw [hschema, hpath, hfind], htagged⟩
  · exact List.mem_append_right _ List.mem_cons_self

theorem DirectorySet.tagged_messageGroups {set : DirectorySet} {directories : List Directory}
    {state ended : GenerationState} {outcomes : List (Except GenerationErrors MessageGroup)}
    {groups : List MessageGroup}
    (hrun : set.messageGroups config directories state = (outcomes, ended))
    (hgather : GenerationErrors.gather outcomes = .ok groups) :
    (∀ group ∈ groups, set.Tags config ended.ledger group) ∧
      ∀ directory ∈ directories, ∃ group ∈ groups, ∃ message ∈ group.messages,
        message.kind = .directory ∧ message.schemaPath = directory.site.pathText := by
  induction directories generalizing state outcomes groups with
  | nil =>
      cases hrun
      cases hgather
      exact ⟨by simp, by simp⟩
  | cons directory rest ih =>
      obtain ⟨group, more, reached, others, rfl, hfirst, hothers, hmore⟩ :=
        of_messageGroups_cons hrun hgather
      have hgrows := set.grows_messageGroups config rest reached
      rw [hothers] at hgrows
      obtain ⟨htags, hmessage⟩ := Site.tagged_messageGroup hfirst
      obtain ⟨hall, hmessages⟩ := ih hothers hmore
      constructor
      · intro other ho
        rcases List.mem_cons.1 ho with rfl | ho
        · intro message hmem hkind
          obtain ⟨found, hfind, htagged⟩ := htags message hmem hkind
          exact ⟨found, hfind, htagged.of_extends hgrows.toExtends⟩
        · exact hall other ho
      · intro other ho
        rcases List.mem_cons.1 ho with rfl | ho
        · exact ⟨group, List.mem_cons_self, hmessage⟩
        · obtain ⟨found, hfound, hshape⟩ := hmessages other ho
          exact ⟨found, List.mem_cons_of_mem _ hfound, hshape⟩

/-- In a run that succeeds, every message of a directory is tagged by the ledger that the run
leaves, and every directory has such a message. -/
theorem Tree.tagged_generateRecords {ledger later : Ledger} {records : GeneratedRecords}
    (h : tree.generateRecords config ledger = (.ok records, later)) :
    (∀ group ∈ records.groups, (tree.directories config).Tags config later group) ∧
      ∀ directory ∈ (tree.directories config).directories, ∃ group ∈ records.groups,
        ∃ message ∈ group.messages, message.kind = .directory ∧
          message.schemaPath = directory.site.pathText := by
  obtain ⟨start, outcomes, ended, _, hgroups, hgather, _, rfl⟩ := Tree.of_generateRecords h
  exact DirectorySet.tagged_messageGroups hgroups hgather

end YangToProto

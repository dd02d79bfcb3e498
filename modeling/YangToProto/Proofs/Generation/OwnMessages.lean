import YangToProto.Proofs.Generation.MessageScopes
import YangToProto.Proofs.Ledger.FirstTags

/-!
# The message of a directory

The fields of a directory, their names and their tags are made one after the other and put together
last. Nothing is lost on the way: for every field that stays in the message there is one in it, in
the same order, with the type that the field is mapped to (`Field.MappedFrom`), and an enum that a
field brings is found under the name that the field has for it (`Scope.Holds`). The names differ,
and so do the tags, which are those of the ledger (`Directory.own_message`).
-/

namespace YangToProto

open Identifier

variable {config : Config} {set : DirectorySet} {tree : Tree} {directory : Directory}
  {registry after : Registry}

/-!
## Fields of scopes
-/

/-- What a field of the type is called by: the type that it refers to, or an enum among those of the
message, with the values and a form of the name that the type wants for it. -/
inductive FieldType.NamedIn (enums : SortedMap String EnumTable) : FieldType → String → Prop
  | reference (typeName : String) (path : Option String) :
      NamedIn enums (.reference typeName path) typeName
  | embedded {candidate name : String} {values : EnumTable} (hmade : MadeFrom candidate name)
      (hfind : enums.find? name = some values) : NamedIn enums (.embedded candidate values) name

theorem FieldType.NamedIn.mono {enums more : SortedMap String EnumTable} {type : FieldType}
    {typeName : String} (h : type.NamedIn enums typeName)
    (hmore : ∀ name values, enums.find? name = some values → more.find? name = some values) :
    type.NamedIn more typeName := by
  cases h with
  | reference => exact .reference _ _
  | embedded hmade hfind => exact .embedded hmade (hmore _ _ hfind)

/-- The field has what the draft says, where a message has the enums. -/
structure FieldDraft.ShownAs (enums : SortedMap String EnumTable) (draft : FieldDraft)
    (field : UntaggedField) : Prop where
  type : draft.type.NamedIn enums field.typeName
  repeated : field.repeated = draft.repeated
  options : field.options = draft.options

namespace Scope

variable {scope : Scope} {drafts : List FieldDraft} {draft : FieldDraft}

/-- The scope has a field for each draft, in order, and the names of its enums are taken. -/
structure Holds (drafts : List FieldDraft) (scope : Scope) : Prop where
  fields : List.Forall₂ (FieldDraft.ShownAs scope.enums) drafts scope.fields
  taken : ∀ name, scope.enums.contains name = true → scope.enumNames.contains name = true

theorem exists_shownAs_accept (scope : Scope) (draft : FieldDraft) :
    ∃ field, (scope.accept draft).fields = scope.fields ++ [field] ∧
      draft.ShownAs (scope.accept draft).enums field := by
  obtain ⟨schemaName, type, repeated, options, wrapper⟩ := draft
  cases type with
  | reference typeName path =>
      cases path with
      | none => exact ⟨_, rfl, .reference _ _, rfl, rfl⟩
      | some path =>
          have hfields := ((scope.addField schemaName typeName repeated options).addImport_eq
            path).1
          exact ⟨_, hfields, .reference _ _, rfl, rfl⟩
  | embedded candidate values =>
      have hmade : MadeFrom candidate (scope.enumNames.claim candidate).1 := by
        rw [NameSet.claim_eq]
        exact NameSet.madeFrom_firstFree scope.enumNames candidate
      exact ⟨_, rfl, .embedded hmade (SortedMap.find?_insert_self _ _ _), rfl, rfl⟩

/-- One more draft changes none of the enums, and the names of enums stay taken. -/
theorem enums_accept (draft : FieldDraft)
    (h : ∀ name, scope.enums.contains name = true → scope.enumNames.contains name = true) :
    (∀ name values, scope.enums.find? name = some values →
      (scope.accept draft).enums.find? name = some values) ∧
    ∀ name, (scope.accept draft).enums.contains name = true →
      (scope.accept draft).enumNames.contains name = true := by
  cases hbrings : draft.type.embedded? with
  | none =>
      obtain ⟨henums, hnames⟩ := enums_accept_of_none scope hbrings
      rw [henums, hnames]
      exact ⟨fun _ _ => id, h⟩
  | some pair =>
      obtain ⟨candidate, table⟩ := pair
      obtain ⟨henums, hnames⟩ := enums_accept_of_some scope hbrings
      rw [henums, hnames]
      refine ⟨fun name values hfind => ?_, fun name hname => ?_⟩
      · -- the new enum has a name that was free
        have hne : name ≠ scope.enumNames.firstFree candidate := by
          rintro rfl
          have hused := h _ ((SortedMap.contains_iff _ _).2 ⟨_, hfind⟩)
          rw [NameSet.contains_firstFree] at hused
          cases hused
        rw [SortedMap.find?_insert_ne _ _ hne, hfind]
      · rw [SortedMap.contains_insert, Bool.or_eq_true] at hname
        rw [NameSet.contains_add, Bool.or_eq_true]
        exact hname.imp_right (h name)

theorem Holds.accept (h : scope.Holds drafts) (draft : FieldDraft) :
    (scope.accept draft).Holds (drafts ++ [draft]) where
  fields := by
    obtain ⟨field, hfields, hshown⟩ := scope.exists_shownAs_accept draft
    rw [hfields]
    refine List.rel_append (h.fields.imp fun other old hold => ?_) (.cons hshown .nil)
    exact ⟨hold.type.mono (enums_accept draft h.taken).1, hold.repeated, hold.options⟩
  taken := (enums_accept draft h.taken).2

theorem Holds.foldl_accept (h : scope.Holds drafts) (more : List FieldDraft) :
    (more.foldl Scope.accept scope).Holds (drafts ++ more) := by
  induction more generalizing scope drafts with
  | nil => simpa using h
  | cons draft rest ih =>
      have hrest := ih (h.accept draft)
      rw [List.append_assoc, List.singleton_append] at hrest
      exact hrest

theorem holds_ofDrafts (drafts : List FieldDraft) : (ofDrafts drafts).Holds drafts := by
  have hempty : empty.Holds [] := ⟨.nil, (nomatch ·, ·)⟩
  exact hempty.foldl_accept drafts

end Scope

/-!
## Fields of messages
-/

/-- The field of a message is what mapping the field of its directory yields. -/
structure Field.MappedFrom (config : Config) (set : DirectorySet) (directory : Directory)
    (registry : Registry) (own : Message) (entry : String × Site) (field : Field) : Prop where
  exists_draft : ∃ draft, entry.2.draft config set directory.path own.package entry.1 registry =
    (.ok draft, registry) ∧ draft.type.NamedIn own.enums field.typeName ∧
      field.repeated = draft.repeated ∧ field.options = draft.options
  repeated : field.repeated = true ↔ entry.2.kind = .list ∨ entry.2.kind = .leafList

/-- In a registry that stays as it is, the own message of a draft has a field for each own field of
the directory. -/
theorem Directory.forall₂_mappedFrom {site : Site} {draft : MessageDraft} {tags : List UInt32}
    (hrun : (ofSite config.compressPaths site).draft config set registry = (.ok draft, registry))
    (hlength : tags.length = draft.scope.fields.length) :
    List.Forall₂ (Field.MappedFrom config set (ofSite config.compressPaths site) registry
        (draft.own tags))
      ((ofSite config.compressPaths site).ownFields config.compressPaths)
      (draft.own tags).fields := by
  obtain ⟨drafts, _, _, hdrafts, hdraft⟩ := exists_drafts hrun
  have hscope : draft.scope.Holds drafts := by
    rw [hdraft]
    exact Scope.holds_ofDrafts drafts
  have hfields := forall₂_comp (forall₂_comp (Site.forall₂_drafts hdrafts) hscope.fields)
    (UntaggedField.forall₂_withTag hlength)
  refine hfields.imp ?_
  rintro entry field ⟨untagged, ⟨drafted, hentry, hshown⟩, tag, rfl⟩
  refine ⟨⟨drafted, hentry, hshown.type, hshown.repeated, hshown.options⟩, ?_⟩
  rw [← (Site.shape_of_draft hentry).2.1, ← hshown.repeated]
  rfl

/-!
## Names and tags
-/

/-- The fields that stay are those of the directory but for the keys that move, and they are in
order of their names. -/
theorem Directory.mem_ownFields_iff {compress : Bool} {name : String} {site : Site} :
    (name, site) ∈ directory.ownFields compress ↔ directory.fields.find? name = some site ∧
      ¬ (directory.movesKeys compress = true ∧ name ∈ directory.site.node.key) := by
  rw [ownFields, List.mem_filter, SortedMap.mem_entries_iff, Bool.not_eq_true',
    ← Bool.not_eq_true, Bool.and_eq_true, List.contains_iff_mem]

theorem Directory.increasing_ownFields (compress : Bool) (directory : Directory) :
    (directory.ownFields compress).Pairwise fun one other => one.1 < other.1 :=
  (directory.fields.increasing.sublist List.filter_sublist).imp fun hlt =>
    compareOfLessAndEq_eq_lt.1 hlt

/-- Different tags of different names, where a sound ledger has them. -/
theorem Ledger.Sound.nodup_tags {ledger : Ledger} (h : ledger.Sound) {path : String}
    {names : List String} (hnames : names.Nodup) {tags : List UInt32}
    (htags : tags.map some = names.map (ledger.tag? path)) : tags.Nodup := by
  have hsome : ∀ name ∈ names, ∃ tag, (ledger.fieldTags path).find? name = some tag := by
    intro name hname
    have hmem := List.mem_map_of_mem (f := ledger.tag? path) hname
    rw [← htags] at hmem
    obtain ⟨tag, _, htag⟩ := List.mem_map.1 hmem
    exact ⟨tag, by rw [← tag?_eq, htag]⟩
  have hnodup : (names.map (ledger.tag? path)).Nodup := by
    refine List.Nodup.map_on (fun one hone other hother hsame => ?_) hnames
    obtain ⟨tag, htag⟩ := hsome one hone
    rw [tag?_eq, tag?_eq, htag] at hsame
    exact (h path).distinct htag hsame.symm
  rw [← htags] at hnodup
  exact hnodup.of_map

/-- What a directory's messages are made of: the draft in the registry that they leave, and the tags
that the ledger gives for the names of its fields. -/
theorem Directory.exists_own {site : Site} {state ended : GenerationState}
    {messages : List Message} (hrun : (ofSite config.compressPaths site).messages config set state =
      (.ok messages, ended)) :
    ∃ draft tags, (ofSite config.compressPaths site).draft config set ended.registry =
        (.ok draft, ended.registry) ∧
      state.ledger.assign site.pathText ((ofSite config.compressPaths site).protoNames
        config.compressPaths) = (.ok tags, ended.ledger) ∧
      messages = draft.wrappers ++ [draft.own tags] := by
  obtain ⟨draft, hdraft, hmessages⟩ := of_messages hrun
  obtain ⟨hpath, hnames, _⟩ := shape_of_draft hdraft
  obtain ⟨tags, hassign, rfl⟩ := MessageDraft.of_messages hmessages
  rw [hpath, hnames] at hassign
  have hsteady : Steady Site.anyLeaf
      ((ofSite config.compressPaths site).draft config set) :=
    steady_draft (Site.allAskAs_anyLeaf _)
  exact ⟨draft, tags, hsteady.again hdraft (.refl _), hassign, rfl⟩

/-- The ledger gives a tag for each field of the draft. -/
theorem Directory.length_of_assign {directory : Directory} {draft : MessageDraft}
    {tags : List UInt32} {path : String} {ledger later : Ledger}
    (hdraft : directory.draft config set registry = (.ok draft, after))
    (hassign : ledger.assign path (directory.protoNames config.compressPaths) =
      (.ok tags, later)) : tags.length = draft.scope.fields.length := by
  have hcount := congrArg List.length
    (Ledger.map_some_eq_of_assign _ _ _ (congrArg Prod.fst hassign))
  rw [List.length_map, List.length_map, ← (shape_of_draft hdraft).2.1, List.length_map] at hcount
  exact hcount

/-- The messages of a directory are key wrappers and, last, its own message. That one has a field
for every field of the directory that is no moved key, in order of their names, and each field is
what mapping yields. Names and tags differ, the ledger then has the tags, and if it did not know the
message they are those of the positions. -/
theorem Directory.own_message (config : Config) {tree : Tree} {directory : Directory}
    (hd : directory ∈ (tree.directories config).directories) (registry : Registry)
    (operations : List Ledger.Operation) {messages : List Message} {ended : GenerationState}
    (hrun : directory.messages config (tree.directories config)
      ⟨registry, Ledger.empty.after operations⟩ = (.ok messages, ended)) :
    ∃ own wrappers, messages = wrappers ++ [own] ∧ own.kind = .directory ∧
      own.schemaPath = directory.path ∧ (∀ wrapper ∈ wrappers, wrapper.kind = .listKey) ∧
      (∀ name site, (name, site) ∈ directory.ownFields config.compressPaths ↔
        directory.fields.find? name = some site ∧
          ¬ (directory.movesKeys config.compressPaths = true ∧
            name ∈ directory.site.node.key)) ∧
      (directory.ownFields config.compressPaths).Pairwise (fun one other => one.1 < other.1) ∧
      List.Forall₂ (Field.MappedFrom config (tree.directories config) directory ended.registry own)
        (directory.ownFields config.compressPaths) own.fields ∧
      (own.fields.map Field.name).Nodup ∧ (own.fields.map Field.tag).Nodup ∧
      (∀ field ∈ own.fields, ended.ledger.tag? directory.path field.name = some field.tag) ∧
      ((Ledger.empty.after operations).messages.find? directory.path = none →
        ∀ k field, own.fields[k]? = some field →
          field.tag.toNat = if k + 1 < 19000 then k + 1 else k + 1 + 1000) := by
  obtain ⟨site, _, _, rfl⟩ := DirectorySet.mem_collect_iff.1 hd
  obtain ⟨draft, tags, hdraft, hassign, rfl⟩ := exists_own hrun
  obtain ⟨hpath, hdrafted, hkinds⟩ := shape_of_draft hdraft
  have hledger := Ledger.map_some_eq_of_assign _ _ _ (congrArg Prod.fst hassign)
  rw [hassign] at hledger
  have hlength := length_of_assign hdraft hassign
  have hfields : (draft.own tags).fields.map Field.name =
        (ofSite config.compressPaths site).protoNames config.compressPaths ∧
      (draft.own tags).fields.map Field.tag = tags := by
    rw [← hdrafted]
    exact UntaggedField.map_zipWith_withTag hlength
  obtain ⟨hnames, htags⟩ := hfields
  have hnodup := nodup_protoNames config.compressPaths (ofSite config.compressPaths site)
  have hsound : ended.ledger.Sound := by
    have hgrows := grows_messages config (tree.directories config)
      (ofSite config.compressPaths site) ⟨registry, Ledger.empty.after operations⟩
    rw [hrun] at hgrows
    exact hgrows.sound (Ledger.sound_after_empty operations)
  have hdistinct : ((draft.own tags).fields.map Field.tag).Nodup := by
    rw [htags]
    exact hsound.nodup_tags hnodup hledger
  refine ⟨draft.own tags, draft.wrappers, rfl, rfl, hpath, hkinds, fun _ _ => mem_ownFields_iff,
    increasing_ownFields _ _, forall₂_mappedFrom hdraft hlength, hnames ▸ hnodup, hdistinct, ?_,
    fun hnew k field hfield => ?_⟩
  · have hrecorded := (congrArg (List.map some) htags).trans hledger
    rw [← hnames, List.map_map, List.map_map, List.map_inj_left] at hrecorded
    exact fun field hfield => (hrecorded field hfield).symm
  · have htag : tags[k]? = some field.tag := by
      rw [← congrArg (·[k]?) htags, List.getElem?_map, hfield]
      rfl
    exact Ledger.toNat_of_assign_of_new hnew hnodup hassign htag

/-- The key of a list that a message holds has moved, and the other two fields have the tags 1
and 2. -/
theorem Directory.own_message_of_list :
    let item := Node.list "item" ["id"]
      [Node.leaf "id" .string, Node.leaf "x" .string, Node.leaf "y" .boolean]
    let top := Node.container "top" [item]
    let declared := Node.module "m" [top]
    let tree := Tree.copyOf declared
    let set := tree.directories {}
    let directory := Directory.ofSite false ⟨item, [top, declared]⟩
    directory ∈ set.directories ∧
      ∃ messages ended, directory.messages {} set ⟨.cold {}, Ledger.empty.after []⟩ =
        (.ok messages, ended) ∧
      ∃ own wrappers, messages = wrappers ++ [own] ∧ own.fields.length = 2 ∧
        ∀ k field, own.fields[k]? = some field → field.tag.toNat = k + 1 := by
  intro item top declared tree set directory
  have hsite : tree.HasSite ⟨item, [top, declared]⟩ :=
    (Site.Under.self.step List.mem_cons_self).step List.mem_cons_self
  have hd : directory ∈ set.directories :=
    DirectorySet.mem_collect_iff.2 ⟨_, hsite, rfl, rfl⟩
  let state : GenerationState := ⟨.cold {}, Ledger.empty.after []⟩
  have hsome : (directory.messages {} set state).1.toOption.isSome = true := by decide +kernel
  have hexists : ∃ messages ended, directory.messages {} set state = (.ok messages, ended) := by
    generalize directory.messages {} set state = run at hsome
    obtain ⟨outcome, ended⟩ := run
    obtain ⟨messages, rfl⟩ := exists_eq_ok_of_isSome hsome
    exact ⟨messages, ended, rfl⟩
  obtain ⟨messages, ended, hrun⟩ := hexists
  obtain ⟨own, wrappers, hlast, _, _, _, _, _, hfields, _, _, _, hpositions⟩ :=
    own_message {} hd (.cold {}) [] hrun
  have htwo : (directory.ownFields false).length = 2 := by decide +kernel
  have hlength : own.fields.length = 2 := hfields.length_eq.symm.trans htwo
  have hnew : state.ledger.messages.find? directory.path = none := rfl
  have htags : ∀ k field, own.fields[k]? = some field → field.tag.toNat = k + 1 := by
    intro k field hfield
    have hk := (List.getElem?_eq_some_iff.1 hfield).1
    rw [hpositions hnew k field hfield, if_pos (by omega)]
  exact ⟨hd, messages, ended, hrun, own, wrappers, hlast, hlength, htags⟩

end YangToProto

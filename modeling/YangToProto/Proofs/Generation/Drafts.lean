import YangToProto.Proofs.Generation.FieldTypes

/-!
# What a run drafts

A run starts from a registry that has a place for every message of the tree and from then on only
adds shared enums. So every name that a draft asks for is answered from memory, whichever directory
asks first, and the messages of a directory stand in the places of its owners
(`Directory.owners`), in order.

A message is closed (`Message.Closed`) if each field has an enum of the message as its type or a
name that is known outside. `DirectorySet.fits_messageGroups` says both of all groups of a run.
-/

namespace YangToProto

variable {config : Config} {tree : Tree} {table : ScalarTable}
  {registry start middle after : Registry}

theorem GenerationErrors.gather_cons_eq_ok {α : Type} {outcome : Except GenerationErrors α}
    {rest : List (Except GenerationErrors α)} {values : List α}
    (h : gather (outcome :: rest) = .ok values) :
    ∃ value others, outcome = .ok value ∧ gather rest = .ok others ∧ values = value :: others := by
  cases outcome with
  | ok value =>
      cases hrest : gather rest with
      | ok others =>
          rw [gather, hrest] at h
          cases h
          exact ⟨value, others, rfl, rfl, rfl⟩
      | error errors =>
          rw [gather, hrest] at h
          cases h
  | error errors =>
      cases hrest : gather rest with
      | ok others =>
          rw [gather, hrest] at h
          cases h
      | error more =>
          rw [gather, hrest] at h
          cases h

theorem DirectorySet.both_eq_ok {α β : Type} {one : Except GenerationErrors α}
    {other : Except GenerationErrors β} {values : α × β} (h : both one other = .ok values) :
    one = .ok values.1 ∧ other = .ok values.2 := by
  cases one with
  | ok a =>
      cases other with
      | ok b =>
          cases h
          exact ⟨rfl, rfl⟩
      | error errors => cases h
  | error errors =>
      cases other with
      | ok b => cases h
      | error more => cases h

/-- A run that succeeds starts from a named registry, drafts every group, and builds every enum. -/
theorem Tree.of_generateRecords {ledger later : Ledger} {records : GeneratedRecords}
    (h : tree.generateRecords config ledger = (.ok records, later)) :
    ∃ start outcomes ended, Registry.ready config (tree.directories config) = .ok start ∧
      (tree.directories config).messageGroups config (tree.directories config).directories
        ⟨start, ledger⟩ = (outcomes, ended) ∧
      GenerationErrors.gather outcomes = .ok records.groups ∧
      ended.registry.buildSharedEnums = .ok records.enums ∧ ended.ledger = later := by
  rw [Tree.generateRecords] at h
  cases hready : Registry.ready config (tree.directories config) with
  | error fault =>
      rw [hready] at h
      cases h
  | ok start =>
      rw [hready] at h
      cases hgroups : (tree.directories config).messageGroups config
          (tree.directories config).directories ⟨start, ledger⟩ with
      | mk outcomes ended =>
          simp only [DirectorySet.records, hgroups] at h
          cases hboth : DirectorySet.both (GenerationErrors.gather outcomes)
              ended.registry.buildSharedEnums with
          | error errors =>
              rw [hboth] at h
              cases h
          | ok values =>
              rw [hboth] at h
              cases h
              obtain ⟨hgather, henums⟩ := DirectorySet.both_eq_ok hboth
              exact ⟨start, outcomes, ended, rfl, hgroups, hgather, henums, rfl⟩

/-- The files of a run that succeeds hold its records. -/
theorem Tree.exists_records_of_generate {sources : Sources} {ledger : Ledger} {output : Output}
    (h : (tree.generate config sources ledger).1 = .ok output) :
    ∃ records, tree.generateRecords config ledger =
        (.ok records, (tree.generate config sources ledger).2) ∧
      output = records.output config sources := by
  rw [Tree.generate] at h ⊢
  cases hrecords : tree.generateRecords config ledger with
  | mk outcome later =>
      rw [hrecords] at h
      cases outcome with
      | error errors => cases h
      | ok records =>
          cases h
          exact ⟨records, rfl, rfl⟩

/-!
## Scopes
-/

namespace Scope

/-- Each field has an enum of the scope as its type or a name of the given kind. -/
def Closed (P : String → Prop) (scope : Scope) : Prop :=
  ∀ field ∈ scope.fields, P field.typeName ∨ scope.enums.contains field.typeName = true

variable {P : String → Prop} {scope : Scope}

theorem Closed.addField (h : scope.Closed P) {typeName : String}
    (htype : P typeName ∨ scope.enums.contains typeName = true) (schemaName : String)
    (repeated : Bool) (options : List String) :
    (scope.addField schemaName typeName repeated options).Closed P := by
  intro field hfield
  rcases List.mem_append.1 hfield with hfield | hfield
  · exact h field hfield
  · rw [List.mem_singleton.1 hfield]
    exact htype

theorem Closed.addImport (h : scope.Closed P) (path : String) :
    (scope.addImport path).Closed P := by
  rw [Scope.addImport]
  split
  · exact h
  · exact h

theorem Closed.accept (h : scope.Closed P) {draft : FieldDraft} (htype : draft.type.Refers P) :
    (scope.accept draft).Closed P := by
  obtain ⟨schemaName, type, repeated, options, wrapper⟩ := draft
  cases type with
  | reference typeName path =>
      cases path with
      | none => exact h.addField (Or.inl htype) schemaName repeated options
      | some path => exact (h.addField (Or.inl htype) schemaName repeated options).addImport path
  | embedded candidate values =>
      have henums : Closed P { scope with
          enumNames := (scope.enumNames.claim candidate).2
          enums := scope.enums.insert (scope.enumNames.claim candidate).1 values } := by
        intro field hfield
        refine (h field hfield).imp_right fun hcontains => ?_
        rw [SortedMap.contains_insert, hcontains, Bool.or_true]
      have hown : (scope.enums.insert (scope.enumNames.claim candidate).1 values).contains
          (scope.enumNames.claim candidate).1 = true := by
        rw [SortedMap.contains_insert, decide_eq_true rfl, Bool.true_or]
      exact henums.addField (Or.inr hown) schemaName repeated options

theorem Closed.foldl_accept (h : scope.Closed P) {drafts : List FieldDraft}
    (hall : ∀ draft ∈ drafts, draft.type.Refers P) :
    (drafts.foldl Scope.accept scope).Closed P := by
  induction drafts generalizing scope with
  | nil => exact h
  | cons draft rest ih =>
      have hfirst := h.accept (hall draft List.mem_cons_self)
      exact ih hfirst fun other ho => hall other (List.mem_cons_of_mem _ ho)

theorem closed_ofDrafts {drafts : List FieldDraft}
    (h : ∀ draft ∈ drafts, draft.type.Refers P) : (ofDrafts drafts).Closed P := by
  have hempty : empty.Closed P := fun _ hfield => absurd hfield List.not_mem_nil
  exact hempty.foldl_accept h

end Scope

/-- Each field has an enum of the message as its type or a name of the given kind. -/
def Message.Closed (P : String → Prop) (message : Message) : Prop :=
  ∀ field ∈ message.fields, P field.typeName ∨ message.enums.contains field.typeName = true

theorem Message.Closed.imp {P Q : String → Prop} {message : Message} (h : message.Closed P)
    (himp : ∀ typeName, P typeName → Q typeName) : message.Closed Q :=
  fun field hfield => (h field hfield).imp_left (himp field.typeName)

theorem Scope.Closed.message {P : String → Prop} {scope : Scope} (h : scope.Closed P)
    (name package path : String) (tags : List UInt32) (kind : MessageKind) :
    (scope.message name package path tags kind).Closed P := by
  intro field hfield
  rw [Scope.message, ← List.map_uncurry_zip_eq_zipWith] at hfield
  obtain ⟨⟨untagged, tag⟩, hmem, rfl⟩ := List.mem_map.1 hfield
  exact h untagged (List.of_mem_zip hmem).1

/-- The table that gives the scalars of a message. -/
def Config.tableOf (config : Config) : MessageKind → ScalarTable
  | .directory => config.valueTable
  | .listKey => .plain

/-- The message is closed with the scalars of its kind and what a registry knows besides. -/
def Message.ClosedIn (config : Config) (tree : Tree) (registry : Registry) (message : Message) :
    Prop :=
  message.Closed (registry.Knows config tree (config.tableOf message.kind))

theorem Message.ClosedIn.of_extends {message : Message}
    (h : message.ClosedIn config tree registry) (hextends : registry.Extends after) :
    message.ClosedIn config tree after :=
  Message.Closed.imp h fun _ hknows => hknows.of_extends hextends

/-!
## Names from memory
-/

namespace Registry

theorem eq_of_messageName {compress : Bool} {site : Site} {name found : String}
    (hname : registry.name? (.directory site) = some name)
    (hrun : messageName compress site registry = (.ok found, after)) :
    found = name ∧ after = registry := by
  rcases messageName_cases hrun with ⟨hfind, rfl⟩ | ⟨hnone, _⟩
  · exact ⟨Option.some.inj (hfind.symm.trans hname), rfl⟩
  · exact absurd (hnone.symm.trans hname) (by simp)

theorem eq_of_keyMessageName {list : Site} {listMessage package name found : String}
    (hname : registry.name? (.keys list) = some name)
    (hrun : keyMessageName list listMessage package registry = (.ok found, after)) :
    found = name ∧ after = registry := by
  rcases keyMessageName_cases hrun with ⟨hfind, rfl⟩ | ⟨hnone, _⟩
  · exact ⟨Option.some.inj (hfind.symm.trans hname), rfl⟩
  · exact absurd (hnone.symm.trans hname) (by simp)

theorem eq_of_packageFor {compress : Bool} {site : Site} {package found : String}
    (hpackage : registry.package? compress (.directory site) = some package)
    (hrun : packageFor compress site registry = (found, after)) :
    found = package ∧ after = registry := by
  rcases packageFor_cases hrun with ⟨hfind, rfl⟩ | ⟨hnone, _⟩
  · exact ⟨Option.some.inj (hfind.symm.trans hpackage), rfl⟩
  · exact absurd (hnone.symm.trans hpackage) (by simp)

end Registry

theorem Site.eq_of_messageReference {site : Site} {reference place : String × String}
    (hplace : registry.place? config.compressPaths (.directory site) = some place)
    (hrun : site.messageReference config registry = (.ok reference, after)) :
    reference = (place.2, place.1) ∧ after = registry := by
  obtain ⟨package, name⟩ := place
  obtain ⟨hpackage, hname⟩ := Registry.place?_eq_some_iff.1 hplace
  obtain ⟨found, first, hfound, hrest⟩ := bind_eq_ok hrun
  obtain ⟨own, second, hown, hpure⟩ := bind_eq_ok hrest
  obtain ⟨rfl, rfl⟩ := Registry.eq_of_messageName hname hfound
  obtain ⟨rfl, rfl⟩ := Registry.eq_of_packageFor hpackage (lift_state_eq_ok hown)
  obtain ⟨rfl, rfl⟩ := pure_eq_ok hpure
  exact ⟨rfl, rfl⟩

/-!
## Fields
-/

/-- The second registry has everything that the first one has, and records its enums well. -/
structure Registry.Leads (registry after : Registry) : Prop where
  kept : registry.Extends after
  recorded : after.EnumsRecorded

theorem Registry.Leads.trans (h : registry.Leads middle) (h' : middle.Leads after) :
    registry.Leads after :=
  ⟨h.kept.trans h'.kept, h'.recorded⟩

/-- A container or list among the own fields of a directory has a message, and that has a place. -/
theorem Directory.exists_place?_of_field {directory : Directory}
    (hready : start.Ready config tree) (hd : directory ∈ (tree.directories config).directories)
    {field : String × Site} (hfield : field ∈ directory.ownFields config.compressPaths)
    (hkind : field.2.kind.isDirectory = true) :
    Owner.directory field.2 ∈ tree.owners config ∧
      ∃ place, start.place? config.compressPaths (.directory field.2) = some place := by
  have hmem := DirectorySet.mem_collect_of_field hd (List.mem_filter.1 hfield).1 hkind
  have howner : Owner.directory field.2 ∈ tree.owners config :=
    Tree.mem_owners_iff.2 ⟨_, hmem, Directory.mem_owners_iff.2 (Or.inr rfl)⟩
  exact ⟨howner, hready.placed _ howner⟩

/-- The key wrapper of a keyed list among the own fields of a directory stands in its package. -/
theorem Directory.exists_place?_keys {directory : Directory} (hready : start.Ready config tree)
    (hd : directory ∈ (tree.directories config).directories) {field : String × Site}
    (hfield : field ∈ directory.ownFields config.compressPaths)
    (hkeyed : field.2.node.isKeyedList = true) {package : String}
    (hpackage : start.package? config.compressPaths (.directory directory.site) = some package) :
    Owner.keys field.2 ∈ tree.owners config ∧
      ∃ name, start.place? config.compressPaths (.keys field.2) = some (package, name) := by
  have hmem := Directory.mem_owners_iff.2 (Or.inl ⟨field, hfield, hkeyed, rfl⟩)
  have howner := Tree.mem_owners_iff.2 ⟨directory, hd, hmem⟩
  obtain ⟨⟨own, name⟩, hplace⟩ := hready.placed _ howner
  obtain ⟨hown, hname⟩ := Registry.place?_eq_some_iff.1 hplace
  obtain ⟨site, _, hmessage, rfl⟩ := DirectorySet.mem_collect_iff.1 hd
  have hsame : start.package? config.compressPaths (.keys field.2) =
      start.package? config.compressPaths (.directory site) := by
    rw [Registry.package?, (Directory.home?_of_mem_owners hmessage hmem).1]
    rfl
  exact ⟨howner, name, Registry.place?_eq_some_iff.2 ⟨hsame.trans hpackage, hname⟩⟩

namespace Site

theorem keyFields_cons (config : Config) (set : DirectorySet) (list : Site) (key : String)
    (rest : List String) (registry : Registry) :
    list.keyFields config set (key :: rest) registry =
      let first := (list.keyField config set key).drafting registry
      let others := list.keyFields config set rest first.2
      ((first.1.map fun type => ⟨key, type, false, [], none⟩) :: others.1, others.2) := rfl

theorem drafts_cons (config : Config) (set : DirectorySet) (directoryPath package : String)
    (field : String × Site) (rest : List (String × Site)) (registry : Registry) :
    drafts config set directoryPath package (field :: rest) registry =
      let first := field.2.draft config set directoryPath package field.1 registry
      let others := drafts config set directoryPath package rest first.2
      (first.1 :: others.1, others.2) := rfl

/-- Where all fields can be drafted, the first one can, and then the others. -/
theorem of_drafts_cons {set : DirectorySet} {directoryPath package : String}
    {field : String × Site} {rest : List (String × Site)}
    {outcomes : List (Except GenerationErrors FieldDraft)} {drafts : List FieldDraft}
    (hrun : Site.drafts config set directoryPath package (field :: rest) registry =
      (outcomes, after))
    (hgather : GenerationErrors.gather outcomes = .ok drafts) :
    ∃ draft more middle others, drafts = draft :: more ∧
      field.2.draft config set directoryPath package field.1 registry = (.ok draft, middle) ∧
      Site.drafts config set directoryPath package rest middle = (others, after) ∧
      GenerationErrors.gather others = .ok more := by
  rw [drafts_cons] at hrun
  cases hfirst : field.2.draft config set directoryPath package field.1 registry with
  | mk outcome middle =>
      cases hothers : Site.drafts config set directoryPath package rest middle with
      | mk others final =>
          simp only [hfirst, hothers] at hrun
          cases hrun
          obtain ⟨draft, more, rfl, hmore, rfl⟩ := GenerationErrors.gather_cons_eq_ok hgather
          exact ⟨draft, more, middle, others, rfl, rfl, hothers, hmore⟩

theorem refers_keyFields {set : DirectorySet} {list : Site} {keys : List String}
    {outcomes : List (Except GenerationErrors FieldDraft)} {drafts : List FieldDraft}
    (h : registry.EnumsRecorded)
    (hrun : list.keyFields config set keys registry = (outcomes, after))
    (hgather : GenerationErrors.gather outcomes = .ok drafts) :
    registry.Leads after ∧
      ∀ draft ∈ drafts, draft.type.Refers (after.Knows config tree .plain) := by
  induction keys generalizing registry outcomes drafts with
  | nil =>
      cases hrun
      cases hgather
      exact ⟨⟨.refl _, h⟩, by simp⟩
  | cons key rest ih =>
      rw [keyFields_cons] at hrun
      cases hfirst : (list.keyField config set key).drafting registry with
      | mk outcome middle =>
          cases hothers : list.keyFields config set rest middle with
          | mk others final =>
              simp only [hfirst, hothers] at hrun
              obtain ⟨rfl, rfl⟩ := hrun
              obtain ⟨draft, more, hdraft, hmore, rfl⟩ :=
                GenerationErrors.gather_cons_eq_ok hgather
              cases outcome with
              | error errors => cases hdraft
              | ok type =>
                  cases hdraft
                  obtain ⟨hkept, hrecorded, hrefers⟩ := knows_keyField h (drafting_eq_ok hfirst)
                  obtain ⟨hleads, hall⟩ := ih hrecorded hothers hmore
                  refine ⟨Registry.Leads.trans ⟨hkept, hrecorded⟩ hleads, fun other ho => ?_⟩
                  rcases List.mem_cons.1 ho with rfl | ho
                  · exact hrefers.imp fun _ hknows => hknows.of_extends hleads.kept
                  · exact hall other ho

theorem closedIn_keyWrapper {set : DirectorySet} {list : Site}
    {package listMessage listPackage name : String} {wrapper : Message}
    (h : start.Leads registry) (hlist : Owner.directory list ∈ tree.owners config)
    (hplace : start.place? config.compressPaths (.directory list) =
      some (listPackage, listMessage))
    (hname : start.name? (.keys list) = some name)
    (hrun : list.keyWrapper config set package listMessage listPackage registry =
      (.ok wrapper, after)) :
    registry.Leads after ∧ wrapper.name = name ∧ wrapper.ClosedIn config tree after := by
  obtain ⟨found, first, hfound, hrest⟩ := bind_eq_ok hrun
  obtain ⟨outcomes, second, houtcomes, hrest⟩ := bind_eq_ok hrest
  obtain ⟨keys, third, hkeys, hpure⟩ := bind_eq_ok hrest
  obtain ⟨rfl, rfl⟩ := Registry.eq_of_keyMessageName (h.kept.name? hname) (drafting_eq_ok hfound)
  obtain ⟨hgather, rfl⟩ := lift_except_eq_ok hkeys
  obtain ⟨rfl, rfl⟩ := pure_eq_ok hpure
  obtain ⟨hleads, hall⟩ := refers_keyFields h.recorded (lift_state_eq_ok houtcomes) hgather
  refine ⟨hleads, rfl,
    Scope.Closed.message (Scope.closed_ofDrafts fun draft hdraft => ?_) _ _ _ _ _⟩
  rcases List.mem_append.1 hdraft with hdraft | hdraft
  · exact hall draft hdraft
  · rw [List.mem_singleton.1 hdraft]
    exact .message hlist ((h.trans hleads).kept.place? hplace)

end Site

/-- The draft of a field refers to known names only, and the key wrapper that it brings is closed
and stands in its place. -/
structure FieldDraft.Fits (config : Config) (tree : Tree) (start registry : Registry)
    (package : String) (field : Site) (draft : FieldDraft) : Prop where
  refers : draft.type.Refers (registry.Knows config tree config.valueTable)
  places : (draft.wrapper.toList.map fun wrapper => some (package, wrapper.name)) =
    field.keyOwners.map (start.place? config.compressPaths)
  closed : ∀ wrapper ∈ draft.wrapper.toList, wrapper.ClosedIn config tree registry

theorem FieldDraft.Fits.of_extends {package : String} {field : Site} {draft : FieldDraft}
    (h : draft.Fits config tree start registry package field) (hextends : registry.Extends after) :
    draft.Fits config tree start after package field where
  refers := h.refers.imp fun _ hknows => hknows.of_extends hextends
  places := h.places
  closed := fun wrapper hwrapper => (h.closed wrapper hwrapper).of_extends hextends

namespace Site

theorem fits_without_wrapper {package schemaName : String} {repeated : Bool} {options : List String}
    {field : Site} {type : FieldType} (hkind : field.kind ≠ .list)
    (h : type.Refers (registry.Knows config tree config.valueTable)) :
    FieldDraft.Fits config tree start registry package field
      ⟨schemaName, type, repeated, options, none⟩ where
  refers := h
  places := by rw [keyOwners_of_ne_list hkind]; rfl
  closed := by simp

theorem fits_list {set : DirectorySet} {directory : Directory} {package : String}
    {field : String × Site} {draft : FieldDraft} (hready : start.Ready config tree)
    (h : start.Leads registry) (hd : directory ∈ (tree.directories config).directories)
    (hfield : field ∈ directory.ownFields config.compressPaths) (hkind : field.2.kind = .list)
    (hpackage : start.package? config.compressPaths (.directory directory.site) = some package)
    (hrun : field.2.draft config set directory.path package field.1 registry =
      (.ok draft, after)) :
    registry.Leads after ∧ draft.Fits config tree start after package field.2 := by
  obtain ⟨howner, place, hplace⟩ :=
    Directory.exists_place?_of_field hready hd hfield (by rw [hkind]; rfl)
  simp only [Site.draft, hkind] at hrun
  obtain ⟨reference, first, hreference, hrest⟩ := bind_eq_ok hrun
  obtain ⟨rfl, rfl⟩ := eq_of_messageReference (h.kept.place? hplace) (drafting_eq_ok hreference)
  by_cases hkeyed : field.2.node.isKeyedList = true
  · simp only [hkeyed, if_true] at hrest
    obtain ⟨wrapper, last, hwrapper, hpure⟩ := bind_eq_ok hrest
    obtain ⟨rfl, rfl⟩ := pure_eq_ok hpure
    obtain ⟨hkeysOwner, name, hkeys⟩ :=
      Directory.exists_place?_keys hready hd hfield hkeyed hpackage
    obtain ⟨hleads, rfl, hclosed⟩ := closedIn_keyWrapper h howner hplace
      (Registry.place?_eq_some_iff.1 hkeys).2 hwrapper
    have hknown := (h.trans hleads).kept.place? hkeys
    refine ⟨hleads, .message hkeysOwner hknown, ?_, ?_⟩
    · rw [keyOwners, if_pos hkeyed, List.map_singleton, hkeys]
      rfl
    · intro other hother
      rw [List.mem_singleton.1 hother]
      exact hclosed
  · simp only [hkeyed] at hrest
    obtain ⟨rfl, rfl⟩ := pure_eq_ok hrest
    refine ⟨⟨.refl _, h.recorded⟩, .message howner (h.kept.place? hplace), ?_, by simp⟩
    rw [keyOwners, if_neg hkeyed]
    rfl

theorem fits_draft {set : DirectorySet} {directory : Directory} {package : String}
    {field : String × Site} {draft : FieldDraft} (hready : start.Ready config tree)
    (h : start.Leads registry) (hd : directory ∈ (tree.directories config).directories)
    (hfield : field ∈ directory.ownFields config.compressPaths)
    (hpackage : start.package? config.compressPaths (.directory directory.site) = some package)
    (hrun : field.2.draft config set directory.path package field.1 registry =
      (.ok draft, after)) :
    registry.Leads after ∧ draft.Fits config tree start after package field.2 := by
  cases hkind : field.2.kind with
  | list => exact fits_list hready h hd hfield hkind hpackage hrun
  | container =>
      obtain ⟨howner, place, hplace⟩ :=
        Directory.exists_place?_of_field hready hd hfield (by rw [hkind]; rfl)
      simp only [Site.draft, hkind] at hrun
      obtain ⟨reference, first, hreference, hpure⟩ := bind_eq_ok hrun
      obtain ⟨rfl, rfl⟩ :=
        eq_of_messageReference (h.kept.place? hplace) (drafting_eq_ok hreference)
      obtain ⟨rfl, rfl⟩ := pure_eq_ok hpure
      exact ⟨⟨.refl _, h.recorded⟩,
        fits_without_wrapper (by simp [hkind]) (.message howner (h.kept.place? hplace))⟩
  | leaf | leafList =>
      simp only [Site.draft, hkind] at hrun
      obtain ⟨type, last, htype, hpure⟩ := bind_eq_ok hrun
      obtain ⟨rfl, rfl⟩ := pure_eq_ok hpure
      obtain ⟨hkept, hrecorded, hrefers⟩ := knows_leafField h.recorded (drafting_eq_ok htype)
      exact ⟨⟨hkept, hrecorded⟩, fits_without_wrapper (by simp [hkind]) hrefers⟩
  | module | anydata =>
      simp only [Site.draft, hkind] at hrun
      exact absurd hrun throw_ne_ok

theorem fits_drafts {set : DirectorySet} {directory : Directory} {package : String}
    {fields : List (String × Site)} {outcomes : List (Except GenerationErrors FieldDraft)}
    {drafts : List FieldDraft} (hready : start.Ready config tree) (h : start.Leads registry)
    (hd : directory ∈ (tree.directories config).directories)
    (hfields : ∀ field ∈ fields, field ∈ directory.ownFields config.compressPaths)
    (hpackage : start.package? config.compressPaths (.directory directory.site) = some package)
    (hrun : Site.drafts config set directory.path package fields registry = (outcomes, after))
    (hgather : GenerationErrors.gather outcomes = .ok drafts) :
    registry.Leads after ∧
      (∀ draft ∈ drafts, draft.type.Refers (after.Knows config tree config.valueTable)) ∧
      ((drafts.filterMap FieldDraft.wrapper).map fun wrapper => some (package, wrapper.name)) =
        (fields.flatMap fun field => field.2.keyOwners).map
          (start.place? config.compressPaths) ∧
      ∀ wrapper ∈ drafts.filterMap FieldDraft.wrapper, wrapper.ClosedIn config tree after := by
  induction fields generalizing registry outcomes drafts with
  | nil =>
      cases hrun
      cases hgather
      exact ⟨⟨.refl _, h.recorded⟩, by simp, rfl, by simp⟩
  | cons field rest ih =>
      obtain ⟨draft, more, middle, others, rfl, hfirst, hothers, hmore⟩ :=
        of_drafts_cons hrun hgather
      obtain ⟨hleads, hfits⟩ := fits_draft hready h hd (hfields field List.mem_cons_self)
        hpackage hfirst
      obtain ⟨hleads', hrefers, hplaces, hclosed⟩ := ih (h.trans hleads)
        (fun other ho => hfields other (List.mem_cons_of_mem _ ho)) hothers hmore
      -- the first draft was closed before the others added to the registry
      have hfits := hfits.of_extends hleads'.kept
      have hwrappers : (draft :: more).filterMap FieldDraft.wrapper =
          draft.wrapper.toList ++ more.filterMap FieldDraft.wrapper := by
        cases hwrapper : draft.wrapper <;> simp [hwrapper]
      refine ⟨hleads.trans hleads', ?_, ?_, ?_⟩
      · intro other ho
        rcases List.mem_cons.1 ho with rfl | ho
        · exact hfits.refers
        · exact hrefers other ho
      · rw [hwrappers, List.map_append, List.flatMap_cons, List.map_append, hplaces,
          hfits.places]
      · intro wrapper hwrapper
        rw [hwrappers] at hwrapper
        rcases List.mem_append.1 hwrapper with hwrapper | hwrapper
        · exact hfits.closed wrapper hwrapper
        · exact hclosed wrapper hwrapper

end Site

/-!
## Messages of directories
-/

/-- The messages of a group stand in the places of some owners, in order, and are closed. -/
structure MessageGroup.Fits (config : Config) (tree : Tree) (start registry : Registry)
    (owners : List Owner) (group : MessageGroup) : Prop where
  places : (group.messages.map fun message => some (group.package, message.name)) =
    owners.map (start.place? config.compressPaths)
  closed : ∀ message ∈ group.messages, message.ClosedIn config tree registry

theorem MessageGroup.Fits.of_extends {owners : List Owner} {group : MessageGroup}
    (h : group.Fits config tree start registry owners) (hextends : registry.Extends after) :
    group.Fits config tree start after owners where
  places := h.places
  closed := fun message hmessage => (h.closed message hmessage).of_extends hextends

/-- The draft of a directory's message stands in its place, its key wrappers stand in theirs, and
all of them are closed. -/
theorem Directory.fits_draft {set : DirectorySet} {directory : Directory} {draft : MessageDraft}
    (hready : start.Ready config tree) (h : start.Leads registry)
    (hd : directory ∈ (tree.directories config).directories)
    (hrun : directory.draft config set registry = (.ok draft, after)) :
    registry.Leads after ∧
      start.place? config.compressPaths (.directory directory.site) =
        some (draft.package, draft.name) ∧
      (draft.wrappers.map fun wrapper => some (draft.package, wrapper.name)) =
        ((directory.ownFields config.compressPaths).flatMap fun field => field.2.keyOwners).map
          (start.place? config.compressPaths) ∧
      (∀ wrapper ∈ draft.wrappers, wrapper.ClosedIn config tree after) ∧
      draft.scope.Closed (after.Knows config tree config.valueTable) := by
  obtain ⟨name, first, hname, hrest⟩ := bind_eq_ok hrun
  obtain ⟨package, second, hpackage, hrest⟩ := bind_eq_ok hrest
  obtain ⟨outcomes, third, houtcomes, hrest⟩ := bind_eq_ok hrest
  obtain ⟨fields, fourth, hfields, hpure⟩ := bind_eq_ok hrest
  obtain ⟨⟨own, given⟩, hplace⟩ := hready.placed (.directory directory.site)
    (Tree.mem_owners_iff.2 ⟨directory, hd, Directory.mem_owners_iff.2 (Or.inr rfl)⟩)
  obtain ⟨hown, hgiven⟩ := Registry.place?_eq_some_iff.1 hplace
  obtain ⟨rfl, rfl⟩ := Registry.eq_of_messageName (h.kept.name? hgiven) (drafting_eq_ok hname)
  obtain ⟨rfl, rfl⟩ := Registry.eq_of_packageFor (h.kept.package? hown)
    (lift_state_eq_ok hpackage)
  obtain ⟨hgather, rfl⟩ := lift_except_eq_ok hfields
  obtain ⟨rfl, rfl⟩ := pure_eq_ok hpure
  obtain ⟨hleads, hrefers, hplaces, hclosed⟩ := Site.fits_drafts hready h hd
    (fun _ hfield => hfield) hown (lift_state_eq_ok houtcomes) hgather
  exact ⟨hleads, hplace, hplaces, hclosed, Scope.closed_ofDrafts hrefers⟩

/-- The message of a draft, tagged in order. -/
def MessageDraft.own (draft : MessageDraft) (tags : List UInt32) : Message :=
  draft.scope.message draft.name draft.package draft.schemaPath tags .directory

/-- A draft becomes its key wrappers and, last, its own message, with the tags that the ledger gives
for the names of the fields. -/
theorem MessageDraft.of_messages {draft : MessageDraft} {ledger later : Ledger}
    {messages : List Message} (hrun : draft.messages ledger = (.ok messages, later)) :
    ∃ tags, ledger.assign draft.schemaPath (draft.scope.fields.map UntaggedField.name) =
      (.ok tags, later) ∧ messages = draft.wrappers ++ [draft.own tags] := by
  rw [MessageDraft.messages] at hrun
  cases hassign : ledger.assign draft.schemaPath (draft.scope.fields.map UntaggedField.name) with
  | mk outcome ended =>
      rw [hassign] at hrun
      cases outcome with
      | error fault => cases hrun
      | ok tags =>
          cases hrun
          exact ⟨tags, rfl, rfl⟩

/-- A directory that has messages has a draft, and they are the draft's. -/
theorem Directory.of_messages {set : DirectorySet} {directory : Directory}
    {state ended : GenerationState} {messages : List Message}
    (hrun : directory.messages config set state = (.ok messages, ended)) :
    ∃ draft, directory.draft config set state.registry = (.ok draft, ended.registry) ∧
      draft.messages state.ledger = (.ok messages, ended.ledger) := by
  rw [Directory.messages] at hrun
  cases hdraft : (directory.draft config set).run state.registry with
  | mk outcome reached =>
      rw [hdraft] at hrun
      cases outcome with
      | error errors => cases hrun
      | ok draft =>
          cases hmessages : draft.messages state.ledger with
          | mk outcome later =>
              simp only [hmessages] at hrun
              cases hrun
              exact ⟨draft, hdraft, hmessages⟩

/-- The group of a node has the messages of the directory that its path text leads to. -/
theorem Site.messages_of_messageGroup {set : DirectorySet} {site : Site}
    {state ended : GenerationState} {group : MessageGroup}
    (hrun : site.messageGroup config set state = (.ok group, ended)) :
    ∃ directory reached, set.find? site.pathText = some directory ∧
      directory.messages config set state = (.ok group.messages, reached) ∧
      Registry.packageFor config.compressPaths site reached.registry =
        (group.package, ended.registry) ∧
      reached.ledger = ended.ledger := by
  rw [Site.messageGroup] at hrun
  split at hrun
  · cases hrun
  · cases hfind : set.find? site.pathText with
    | none =>
        rw [hfind] at hrun
        cases hrun
    | some directory =>
        rw [hfind] at hrun
        dsimp only at hrun
        split at hrun
        · cases hrun
        · rename_i messages reached hmessages
          cases hrun
          exact ⟨directory, reached, rfl, hmessages, rfl, rfl⟩

theorem Directory.fits_messages {set : DirectorySet} {directory : Directory}
    {state ended : GenerationState} {messages : List Message} (hready : start.Ready config tree)
    (h : start.Leads state.registry) (hd : directory ∈ (tree.directories config).directories)
    (hrun : directory.messages config set state = (.ok messages, ended)) :
    state.registry.Leads ended.registry ∧ ∃ package,
      start.package? config.compressPaths (.directory directory.site) = some package ∧
      MessageGroup.Fits config tree start ended.registry
        (directory.owners config.compressPaths) ⟨package, messages⟩ := by
  obtain ⟨draft, hdraft, hmessages⟩ := Directory.of_messages hrun
  obtain ⟨hleads, hplace, hplaces, hwrappers, hscope⟩ := Directory.fits_draft hready h hd hdraft
  obtain ⟨tags, _, rfl⟩ := MessageDraft.of_messages hmessages
  have hpackage := (Registry.place?_eq_some_iff.1 hplace).1
  refine ⟨hleads, draft.package, hpackage, ?_, fun message hmessage => ?_⟩
  · rw [List.map_append, hplaces, Directory.owners, List.map_append, List.map_singleton,
      List.map_singleton, hplace]
    rfl
  · rcases List.mem_append.1 hmessage with hmessage | hmessage
    · exact hwrappers message hmessage
    · rw [List.mem_singleton.1 hmessage]
      exact hscope.message _ _ _ _ _

theorem Site.fits_messageGroup {directory : Directory} {state ended : GenerationState}
    {group : MessageGroup} (hroot : tree.root.Distinct) (hslash : tree.SlashFree)
    (hready : start.Ready config tree) (h : start.Leads state.registry)
    (hd : directory ∈ (tree.directories config).directories)
    (hrun : directory.site.messageGroup config (tree.directories config) state =
      (.ok group, ended)) :
    state.registry.Leads ended.registry ∧
      group.Fits config tree start ended.registry (directory.owners config.compressPaths) := by
  obtain ⟨site, hsite, hmessage, rfl⟩ := DirectorySet.mem_collect_iff.1 hd
  obtain ⟨found, reached, hfound, hmessages, hfor, _⟩ := Site.messages_of_messageGroup hrun
  have hfind : (tree.directories config).find? site.pathText =
      some (Directory.ofSite config.compressPaths site) :=
    DirectorySet.find?_collect hroot hslash hd
  obtain rfl := Option.some.inj (hfind.symm.trans hfound)
  obtain ⟨hleads, package, hpackage, hfits⟩ := Directory.fits_messages hready h hd hmessages
  obtain ⟨rfl, hreached⟩ :=
    Registry.eq_of_packageFor ((h.trans hleads).kept.package? hpackage) hfor
  rw [hreached]
  exact ⟨hleads, hfits⟩

/-- Where all directories give their messages, the first one does, and then the others. -/
theorem DirectorySet.of_messageGroups_cons {set : DirectorySet} {directory : Directory}
    {rest : List Directory} {state ended : GenerationState}
    {outcomes : List (Except GenerationErrors MessageGroup)} {groups : List MessageGroup}
    (hrun : set.messageGroups config (directory :: rest) state = (outcomes, ended))
    (hgather : GenerationErrors.gather outcomes = .ok groups) :
    ∃ group more reached others, groups = group :: more ∧
      directory.site.messageGroup config set state = (.ok group, reached) ∧
      set.messageGroups config rest reached = (others, ended) ∧
      GenerationErrors.gather others = .ok more := by
  rw [messageGroups] at hrun
  cases hfirst : directory.site.messageGroup config set state with
  | mk outcome reached =>
      cases hothers : set.messageGroups config rest reached with
      | mk others final =>
          simp only [hfirst, hothers] at hrun
          cases hrun
          obtain ⟨group, more, rfl, hmore, rfl⟩ := GenerationErrors.gather_cons_eq_ok hgather
          exact ⟨group, more, reached, others, rfl, rfl, hothers, hmore⟩

/-- The groups of a run hold the messages of all owners in order, and every message is closed with
what the run has recorded in the end. -/
theorem DirectorySet.fits_messageGroups {directories : List Directory}
    {state ended : GenerationState} {outcomes : List (Except GenerationErrors MessageGroup)}
    {groups : List MessageGroup} (hroot : tree.root.Distinct) (hslash : tree.SlashFree)
    (hready : start.Ready config tree) (h : start.Leads state.registry)
    (hd : ∀ directory ∈ directories, directory ∈ (tree.directories config).directories)
    (hrun : (tree.directories config).messageGroups config directories state = (outcomes, ended))
    (hgather : GenerationErrors.gather outcomes = .ok groups) :
    state.registry.Leads ended.registry ∧
      (groups.flatMap fun group =>
        group.messages.map fun message => some (group.package, message.name)) =
        (directories.flatMap (Directory.owners config.compressPaths)).map
          (start.place? config.compressPaths) ∧
      ∀ group ∈ groups, ∀ message ∈ group.messages,
        message.ClosedIn config tree ended.registry := by
  induction directories generalizing state outcomes groups with
  | nil =>
      cases hrun
      cases hgather
      exact ⟨⟨.refl _, h.recorded⟩, rfl, by simp⟩
  | cons directory rest ih =>
      obtain ⟨group, more, reached, others, rfl, hfirst, hothers, hmore⟩ :=
        of_messageGroups_cons hrun hgather
      obtain ⟨hleads, hfits⟩ := Site.fits_messageGroup hroot hslash hready h
        (hd directory List.mem_cons_self) hfirst
      obtain ⟨hleads', hplaces, hclosed⟩ := ih (h.trans hleads)
        (fun other ho => hd other (List.mem_cons_of_mem _ ho)) hothers hmore
      have hfits := hfits.of_extends hleads'.kept
      refine ⟨hleads.trans hleads', ?_, ?_⟩
      · rw [List.flatMap_cons, List.flatMap_cons, List.map_append, hplaces, hfits.places]
      · intro other ho
        rcases List.mem_cons.1 ho with rfl | ho
        · exact hfits.closed
        · exact hclosed other ho

end YangToProto

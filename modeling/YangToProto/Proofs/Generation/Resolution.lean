import YangToProto.Proofs.Generation.Drafts
import YangToProto.Proofs.Generation.Files

/-!
# References and definitions

In the files of a successful run no two definitions of a package have one name, and every field
refers to a scalar, to an enum of its own message, or to a definition that exists once
(`Tree.resolves_of_generate`).

The definitions are those of the owners of a tree, which are all different (`Tree.nodup_owners`)
and have different places. A reference is the place of an owner, so the definition is there; that
there is no second one is the injectivity of places.
-/

namespace YangToProto

variable {config : Config} {tree : Tree} {registry : Registry}

/-!
## Names of definitions
-/

theorem SharedEnum.name_build {definition : SharedEnum} {enum : PackageEnum}
    (h : definition.build = .ok enum) : enum.name = definition.name := by
  rw [build] at h
  cases hkind : definition.type.kind with
  | identityref base =>
      simp only [hkind] at h
      cases hvalues : base.enumValues with
      | ok values =>
          rw [hvalues] at h
          cases h
          rfl
      | error fault =>
          rw [hvalues] at h
          cases h
  | enumeration members =>
      simp only [hkind] at h
      split at h
      · cases h
      · cases hvalues : definition.type.enumerationValues definition.sourcePath with
        | ok values =>
            rw [hvalues] at h
            cases h
            rfl
        | error fault =>
            rw [hvalues] at h
            cases h
  | union members =>
      simp only [hkind] at h
      split at h <;> cases h
  | scalar s =>
      simp only [hkind] at h
      cases h

theorem SharedEnum.names_of_gather {definitions : List SharedEnum} {enums : List PackageEnum}
    (h : GenerationErrors.gather (definitions.map fun definition =>
      definition.build.mapError fun error => [error]) = .ok enums) :
    enums.map PackageEnum.name = definitions.map SharedEnum.name := by
  induction definitions generalizing enums with
  | nil =>
      cases h
      rfl
  | cons definition rest ih =>
      obtain ⟨enum, others, henum, hothers, rfl⟩ := GenerationErrors.gather_cons_eq_ok h
      dsimp only at henum
      cases hbuild : definition.build with
      | error fault =>
          rw [hbuild] at henum
          cases henum
      | ok built =>
          rw [hbuild] at henum
          cases henum
          rw [List.map_cons, List.map_cons, ih hothers, SharedEnum.name_build hbuild]

/-- The enums of a run are those that the registry has recorded. -/
theorem Registry.names_buildSharedEnums (h : registry.EnumsRecorded) {enums : List PackageEnum}
    (hrun : registry.buildSharedEnums = .ok enums) :
    enums.map PackageEnum.name = registry.sharedEnums.keys := by
  rw [SharedEnum.names_of_gather hrun, SortedMap.values, SortedMap.keys, List.map_map]
  refine List.map_congr_left fun entry hentry => ?_
  exact h.named ((SortedMap.mem_entries_iff _ _ _).1 hentry)

namespace GeneratedRecords

variable {records : GeneratedRecords}

def places (records : GeneratedRecords) : List (String × String) :=
  records.groups.flatMap fun group =>
    group.messages.map fun message => (group.package, message.name)

def namesIn (config : Config) (records : GeneratedRecords) (package : String) : List String :=
  (records.messagesIn package).map Message.name ++
    (records.enumsIn config package).map PackageEnum.name

/-- What the type of a field may be. -/
inductive Resolves (config : Config) (records : GeneratedRecords) (message : Message)
    (typeName : String) : Prop where
  /-- A scalar of the table in use. -/
  | scalar (h : (config.tableOf message.kind).HasEntry typeName)
  /-- An enum of the message itself. -/
  | embedded (h : message.enums.contains typeName = true)
  /-- A message that is defined once in its package. -/
  | message (package name : String) (htype : typeName = Package.dotted [package, name])
      (h : ((records.messagesIn package).map Message.name).count name = 1)
  /-- A shared enum that is defined once. -/
  | sharedEnum (name : String) (htype : typeName = Package.dotted [config.enumPackage, name])
      (h : ((records.enumsIn config config.enumPackage).map PackageEnum.name).count name = 1)

/-- The names of the messages in a package are the second parts of the places there. -/
theorem map_name_messagesIn (records : GeneratedRecords) (package : String) :
    (records.messagesIn package).map Message.name =
      (records.places.filter fun place => place.1 == package).map Prod.snd := by
  rw [messagesIn, places]
  induction records.groups with
  | nil => rfl
  | cons group rest ih =>
      rw [List.flatMap_cons, List.filter_append, List.map_append, ← ih, List.filter_map]
      by_cases h : group.package = package
      · have hall : group.messages.filter ((fun place => place.1 == package) ∘
            fun message => (group.package, message.name)) = group.messages :=
          List.filter_eq_self.2 fun message _ => by simp [h]
        rw [List.filter_cons_of_pos (by simp [h]), List.flatMap_cons, List.map_append, hall,
          List.map_map]
        rfl
      · have hnone : group.messages.filter ((fun place => place.1 == package) ∘
            fun message => (group.package, message.name)) = [] :=
          List.filter_eq_nil_iff.2 fun message _ => by simp [h]
        rw [List.filter_cons_of_neg (by simp [h]), hnone]
        rfl

theorem nodup_messagesIn (h : records.places.Nodup) (package : String) :
    ((records.messagesIn package).map Message.name).Nodup := by
  rw [map_name_messagesIn, List.Nodup, List.pairwise_map]
  refine (h.filter _).imp_of_mem fun hone hother hne heq => hne ?_
  have hfirst := (List.mem_filter.1 hone).2
  have hsecond := (List.mem_filter.1 hother).2
  rw [beq_iff_eq] at hfirst hsecond
  exact Prod.ext (hfirst.trans hsecond.symm) heq

theorem mem_messagesIn_iff {package name : String} :
    name ∈ (records.messagesIn package).map Message.name ↔ (package, name) ∈ records.places := by
  rw [map_name_messagesIn, List.mem_map]
  constructor
  · rintro ⟨⟨own, _⟩, hmem, rfl⟩
    obtain ⟨hplace, hpackage⟩ := List.mem_filter.1 hmem
    rw [beq_iff_eq] at hpackage
    exact hpackage ▸ hplace
  · intro hplace
    exact ⟨(package, name), List.mem_filter.2 ⟨hplace, beq_self_eq_true _⟩, rfl⟩

end GeneratedRecords

/-!
## The theorem
-/

/-- The records stand in the places of a tree's owners, in order, refer to what is known in the
end, and have the enums that are recorded then. -/
structure GeneratedRecords.Fits (config : Config) (tree : Tree) (start final : Registry)
    (records : GeneratedRecords) : Prop where
  ready : start.Ready config tree
  leads : start.Leads final
  places : records.places.map some = (tree.owners config).map (start.place? config.compressPaths)
  closed : ∀ group ∈ records.groups, ∀ message ∈ group.messages,
    message.ClosedIn config tree final
  enums : records.enums.map PackageEnum.name = final.sharedEnums.keys

theorem Tree.fits_of_messageGroups {start : Registry} {ledger : Ledger}
    {outcomes : List (Except GenerationErrors MessageGroup)} {ended : GenerationState}
    {records : GeneratedRecords} (hroot : tree.root.Distinct) (hslash : tree.SlashFree)
    (hready : Registry.ready config (tree.directories config) = .ok start)
    (hgroups : (tree.directories config).messageGroups config
      (tree.directories config).directories ⟨start, ledger⟩ = (outcomes, ended))
    (hgather : GenerationErrors.gather outcomes = .ok records.groups)
    (henums : ended.registry.buildSharedEnums = .ok records.enums) :
    records.Fits config tree start ended.registry := by
  have hstart := Registry.ready_of_ready_eq_ok hroot hslash hready
  obtain ⟨hleads, hplaces, hclosed⟩ := DirectorySet.fits_messageGroups hroot hslash hstart
    ⟨.refl start, hstart.inScope.enums⟩ (fun _ hd => hd) hgroups hgather
  refine ⟨hstart, hleads, ?_, hclosed, Registry.names_buildSharedEnums hleads.recorded henums⟩
  rw [Tree.owners, ← hplaces, GeneratedRecords.places, List.map_flatMap]
  simp [Function.comp_def]

theorem Tree.fits_generateRecords {ledger later : Ledger} {records : GeneratedRecords}
    (hroot : tree.root.Distinct) (hslash : tree.SlashFree)
    (h : tree.generateRecords config ledger = (.ok records, later)) :
    ∃ start final, records.Fits config tree start final := by
  obtain ⟨start, outcomes, ended, hready, hgroups, hgather, henums, _⟩ :=
    Tree.of_generateRecords h
  exact ⟨start, ended.registry,
    Tree.fits_of_messageGroups hroot hslash hready hgroups hgather henums⟩

namespace GeneratedRecords

variable {start final : Registry} {records : GeneratedRecords}

theorem Fits.mem_places_iff (h : records.Fits config tree start final) {place : String × String} :
    place ∈ records.places ↔
      ∃ owner ∈ tree.owners config, start.place? config.compressPaths owner = some place := by
  rw [← List.mem_map, ← h.places]
  simp

/-- Different messages have different places. -/
theorem Fits.nodup_places (h : records.Fits config tree start final)
    (hroot : tree.root.Distinct) : records.places.Nodup := by
  have howners : ((tree.owners config).map (start.place? config.compressPaths)).Nodup := by
    rw [List.Nodup, List.pairwise_map]
    refine (Tree.nodup_owners hroot).imp_of_mem fun howner hother hne heq => hne ?_
    obtain ⟨place, hplace⟩ := h.ready.placed _ howner
    exact h.ready.inScope.injective (Tree.hasSite_of_mem_owners howner)
      (Tree.hasSite_of_mem_owners hother) hplace (heq ▸ hplace)
  rw [← h.places, List.Nodup, List.pairwise_map] at howners
  exact howners.imp fun hne heq => hne (congrArg some heq)

theorem Fits.messagesIn_enumPackage (h : records.Fits config tree start final) :
    records.messagesIn config.enumPackage = [] := by
  cases hmessages : records.messagesIn config.enumPackage with
  | nil => rfl
  | cons message rest =>
      have hname : message.name ∈ (records.messagesIn config.enumPackage).map Message.name := by
        rw [hmessages]
        exact List.mem_cons_self
      obtain ⟨owner, _, hplace⟩ := h.mem_places_iff.1 (mem_messagesIn_iff.1 hname)
      obtain ⟨home, _, hfind⟩ :=
        Option.bind_eq_some_iff.1 (Registry.place?_eq_some_iff.1 hplace).1
      exact absurd rfl (h.ready.inScope.ne_reserved hfind)

theorem Fits.nodup_namesIn (h : records.Fits config tree start final)
    (hroot : tree.root.Distinct) (package : String) : (records.namesIn config package).Nodup := by
  rw [namesIn, enumsIn]
  by_cases heq : package = config.enumPackage
  · subst heq
    rw [h.messagesIn_enumPackage, if_pos rfl, h.enums]
    exact final.sharedEnums.nodup_keys
  · rw [if_neg heq, List.map_nil, List.append_nil]
    exact nodup_messagesIn (h.nodup_places hroot) package

theorem Fits.resolves (h : records.Fits config tree start final) (hroot : tree.root.Distinct)
    {message : Message} {typeName : String}
    (hknows : final.Knows config tree (config.tableOf message.kind) typeName) :
    records.Resolves config message typeName := by
  cases hknows with
  | scalar hentry => exact .scalar hentry
  | @message owner package name howner hplace =>
      -- the place was given out before the run started
      obtain ⟨place, hstart⟩ := h.ready.placed owner howner
      have hsame := h.leads.kept.place? hstart
      rw [hplace, Option.some.injEq] at hsame
      subst hsame
      have hmem := mem_messagesIn_iff.2 (h.mem_places_iff.2 ⟨owner, howner, hstart⟩)
      refine .message package name rfl ?_
      rw [(nodup_messagesIn (h.nodup_places hroot) package).count, if_pos hmem]
  | @sharedEnum name hname =>
      refine .sharedEnum name rfl ?_
      rw [enumsIn, if_pos rfl, h.enums, (SortedMap.nodup_keys _).count,
        if_pos ((SortedMap.mem_keys_iff _ _).2 hname)]

end GeneratedRecords

/-- In the files of a run that succeeds, the definitions of a package have different names and each
field refers to a scalar, to an enum of its message, or to a definition that exists once. -/
theorem Tree.resolves_of_generate {declared : Node} {tree : Tree}
    (htree : Tree.ofNode declared = .ok tree) (hslash : tree.SlashFree) {config : Config}
    {sources : Sources} {ledger : Ledger} {output : Output}
    (h : (tree.generate config sources ledger).1 = .ok output) :
    ∃ records, (tree.generateRecords config ledger).1 = .ok records ∧
      output = records.output config sources ∧
      output.Holds config sources records ∧
      (∀ package, (records.namesIn config package).Nodup) ∧
      ∀ group ∈ records.groups, ∀ message ∈ group.messages, ∀ field ∈ message.fields,
        records.Resolves config message field.typeName := by
  have hroot := Tree.distinct_root htree
  obtain ⟨records, hrecords, rfl⟩ := Tree.exists_records_of_generate h
  obtain ⟨start, final, hfits⟩ := Tree.fits_generateRecords hroot hslash hrecords
  refine ⟨records, congrArg Prod.fst hrecords, rfl, records.holds_output config sources,
    hfits.nodup_namesIn hroot, fun group hgroup message hmessage field hfield => ?_⟩
  rcases hfits.closed group hgroup message hmessage field hfield with hknows | henum
  · exact hfits.resolves hroot hknows
  · exact .embedded henum

theorem Tree.resolves_of_generate_keyed_list :
    let color := Node.leaf "color" (.typedefEnum "color" [⟨"red", 0⟩])
    let id := Node.leaf "id" .string
    let declared := Node.module "m" [Node.container "top" [Node.list "item" ["id"] [id, color]]]
    let tree := Tree.copyOf declared
    Tree.ofNode declared = .ok tree ∧ tree.SlashFree ∧
      ∃ output, (tree.generate {} {} ∅).1 = .ok output ∧
      ∃ records, (tree.generateRecords {} ∅).1 = .ok records ∧
        output = records.output {} {} ∧ output.Holds {} {} records ∧
        (∀ package, (records.namesIn {} package).Nodup) ∧
        ∀ group ∈ records.groups, ∀ message ∈ group.messages, ∀ field ∈ message.fields,
          records.Resolves {} message field.typeName := by
  intro color id declared tree
  have htree : Tree.ofNode declared = .ok tree :=
    Tree.ofNode_eq rfl (by decide +kernel)
  have hslash : tree.SlashFree := Tree.slashFree_of_sites (by decide +kernel)
  have hsome : (tree.generate {} {} ∅).1.toOption.isSome = true := by decide +kernel
  obtain ⟨output, hrun⟩ := exists_eq_ok_of_isSome hsome
  exact ⟨htree, hslash, output, hrun, Tree.resolves_of_generate htree hslash hrun⟩

end YangToProto

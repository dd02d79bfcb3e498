import YangToProto.Proofs.Generation.Agreement
import YangToProto.Proofs.Generation.Imports
import YangToProto.Proofs.Generation.MessageScopes
import YangToProto.Proofs.Naming.Candidates
import YangToProto.Proofs.Naming.PackageParts

/-!
# Where the names of a run come from

Whatever a run emits is traced to the schema (`GeneratedRecords.Traced`): the names of messages and
key wrappers were given in advance and are made from the names of directories, packages have a part
for each ancestor with a message, and the names of shared enums are made from the names of typedefs
and identity bases.
-/

namespace YangToProto

open Identifier

variable {config : Config} {tree : Tree} {records : GeneratedRecords} {start final : Registry}
  {owner : Owner} {site : Site} {package source : String} {message : Message}

theorem Identifier.colon_notMem_of_isSchemaName {name : String} (h : isSchemaName name = true) :
    ':' ∉ name.toList := fun hmem =>
  absurd ((isSchemaName_iff.1 h).2 ':' hmem) (by decide)

theorem LeafType.exists_source {type : LeafType} (h : type.isNamedEnum = true) :
    ∃ source, type.source? = some source := by
  rw [isNamedEnum] at h
  rw [source?]
  cases hkind : type.kind with
  | enumeration members =>
      have hinline : type.isInlineEnum = false := by simpa [hkind] using h
      exact ⟨type.name, by simp [hinline]⟩
  | identityref base => exact ⟨base.name, rfl⟩
  | scalar s => simp [hkind] at h
  | union members => simp [hkind] at h

theorem LeafType.isShared_of_source? {type : LeafType} (h : type.source? = some source) :
    type.isShared = true := by
  rw [source?] at h
  rw [isShared]
  cases hkind : type.kind with
  | enumeration members => cases hinline : type.isInlineEnum <;> simp [hkind, hinline] at h ⊢
  | identityref base => rfl
  | scalar s => simp [hkind] at h
  | union members => simp [hkind] at h

/-- The registry that a run starts from has named owners in turn. -/
theorem Registry.inTurn_ready (hroot : tree.root.Distinct) (hslash : tree.SlashFree)
    (h : ready config (tree.directories config) = .ok start) :
    start.InTurn tree config.compressPaths (tree.ownersByPass config) ∧
      start.PackagesMade config tree := by
  obtain ⟨named, hnamed, rfl⟩ := exists_comesFrom_ready hroot hslash h
  exact ⟨hnamed.inTurn.of_packages (.refl _) rfl rfl rfl,
    hnamed.packagesMade.of_samePackages ⟨rfl, rfl, rfl⟩⟩

namespace Tree

theorem mem_ownersByPass_of_mem_owners (h : owner ∈ tree.owners config) :
    owner ∈ tree.ownersByPass config :=
  mem_ownersByPass ((tree.perm_ownersInTurn config).mem_iff.1 h)

theorem directory_mem_owners_iff : Owner.directory site ∈ tree.owners config ↔
    Directory.ofSite config.compressPaths site ∈ (tree.directories config).directories := by
  rw [mem_owners_iff]
  constructor
  · rintro ⟨directory, hd, hmem⟩
    obtain ⟨top, _, _, rfl⟩ := DirectorySet.mem_collect_iff.1 hd
    rcases Directory.mem_owners_iff.1 hmem with ⟨_, _, _, hkeys⟩ | hsame
    · cases hkeys
    · cases hsame
      exact hd
  · exact fun hd => ⟨_, hd, Directory.mem_owners_iff.2 (Or.inr rfl)⟩

theorem directory_mem_owners_of_mem_ownersByPass
    (h : Owner.directory site ∈ tree.ownersByPass config) :
    Owner.directory site ∈ tree.owners config := by
  have hmem : Owner.directory site ∈ (tree.ownersByPass config).filter Owner.isDirectory :=
    List.mem_filter.2 ⟨h, rfl⟩
  rw [filter_ownersByPass] at hmem
  obtain ⟨directory, hd, hsame⟩ := List.mem_map.1 hmem
  cases hsame
  exact mem_owners_iff.2 ⟨directory, hd, Directory.mem_owners_iff.2 (Or.inr rfl)⟩

/-- Messages have fields for nodes of the tree only. -/
theorem hasSite_of_mem_fields (howner : owner ∈ tree.owners config)
    (hsite : site ∈ owner.fields config (tree.directories config)) : tree.HasSite site := by
  have htop := hasSite_of_mem_owners howner
  cases owner with
  | directory top =>
      obtain ⟨other, _, hmessage, hsame⟩ :=
        DirectorySet.mem_collect_iff.1 (directory_mem_owners_iff.1 howner)
      obtain rfl : top = other := congrArg Directory.site hsame
      obtain ⟨field, hfield, rfl⟩ := List.mem_map.1 hsite
      exact htop.trans (Site.of_mem_fields hmessage (List.mem_filter.1 hfield).1).2.1
  | keys list =>
      rcases List.mem_append.1 hsite with hleaf | hself
      · obtain ⟨key, _, hkey⟩ := List.mem_filterMap.1 hleaf
        exact (Site.of_keyLeaf? hkey).2 htop
      · rw [List.mem_singleton.1 hself]
        exact htop

/-- A message has a field for a leaf whose type is the shared enum of a typedef or identity base of
the given name. -/
def AsksFor (config : Config) (tree : Tree) (source : String) : Prop :=
  ∃ leaf type, (tree.directories config).Asks config leaf type ∧ type.source? = some source

end Tree

/-- The records are those of a run that has given names in advance. -/
structure GeneratedRecords.Traced (config : Config) (tree : Tree) (start final : Registry)
    (records : GeneratedRecords) : Prop where
  root : tree.root.Distinct
  slashFree : tree.SlashFree
  inTurn : start.InTurn tree config.compressPaths (tree.ownersByPass config)
  packages : start.PackagesMade config tree
  kept : start.KeptBy final
  enums : final.EnumsMade
  named : records.NamedBy config tree final

theorem Tree.exists_traced_of_generate (hroot : tree.root.Distinct) (hslash : tree.SlashFree)
    {sources : Sources} {ledger : Ledger} {output : Output}
    (h : (tree.generate config sources ledger).1 = .ok output) :
    ∃ records start final, (tree.generateRecords config ledger).1 = .ok records ∧
      output = records.output config sources ∧ records.Traced config tree start final := by
  obtain ⟨records, hrecords, houtput⟩ := Tree.exists_records_of_generate h
  obtain ⟨start, final, hready, hgrows, hnamed⟩ := Tree.exists_namedBy_of_generateRecords hrecords
  obtain ⟨hturn, hpackages⟩ := Registry.inTurn_ready hroot hslash hready
  exact ⟨records, start, final, congrArg Prod.fst hrecords, houtput, hroot, hslash, hturn,
    hpackages, hgrows.keptBy, hgrows.enumsMade (Registry.enumsMade_ready hready), hnamed⟩

namespace GeneratedRecords

/-!
## Messages
-/

/-- A message has the place that its owner was given in advance. -/
theorem Traced.place?_of_makes (h : records.Traced config tree start final)
    (hmakes : records.Makes config tree owner package message) :
    owner ∈ tree.owners config ∧
      start.place? config.compressPaths owner = some (package, message.name) := by
  have howner := hmakes.mem_owners h.root h.slashFree
  obtain ⟨place, hplace⟩ := h.inTurn.exists_place? (Tree.mem_ownersByPass_of_mem_owners howner)
  have hlater := h.kept.place? hplace
  rw [h.named.place?_of_makes h.root h.slashFree hmakes] at hlater
  exact ⟨howner, Option.some.inj hlater ▸ hplace⟩

/-- What holds of all that is made from the words of the names of directories, and of all that is
made from such names as key wrappers, holds of every message's name. -/
theorem Traced.forall_name (h : records.Traced config tree start final) {P : String → Prop}
    (hmade : ∀ {candidate name}, P candidate → MadeFrom candidate name → P name)
    (hmessage : ∀ site, Owner.directory site ∈ tree.owners config → P (pascalCase site.name))
    (hkey : ∀ {listMessage}, P listMessage → P (Registry.keyCandidate listMessage))
    (hmem : message ∈ records.messagesIn package) : P message.name := by
  obtain ⟨owner, hmakes⟩ := h.named.exists_owner hmem
  obtain ⟨howner, hplace⟩ := h.place?_of_makes hmakes
  exact h.inTurn.forall_name hmade
    (fun site hsite => hmessage site (Tree.directory_mem_owners_of_mem_ownersByPass hsite)) hkey
    (Tree.mem_ownersByPass_of_mem_owners howner) (Registry.place?_eq_some_iff.1 hplace).2

/-- A message stands in a package that has the parts of its home. -/
theorem Traced.exists_parts (h : records.Traced config tree start final)
    (hmakes : records.Makes config tree owner package message) :
    ∃ home parts, owner.home? config.compressPaths = some home ∧
      Owner.directory home ∈ tree.owners config ∧ home.PartsOf config.compressPaths parts ∧
      package = Package.dotted (config.basePackage :: parts) := by
  obtain ⟨howner, hplace⟩ := h.place?_of_makes hmakes
  obtain ⟨home, hhome, hfound⟩ :=
    Option.bind_eq_some_iff.1 (Registry.place?_eq_some_iff.1 hplace).1
  obtain ⟨directory, hd, hmem⟩ := Tree.mem_owners_iff.1 howner
  obtain ⟨site, hsite, hmessage, rfl⟩ := DirectorySet.mem_collect_iff.1 hd
  obtain rfl := Option.some.inj
    ((Directory.home?_of_mem_owners hmessage hmem).1.symm.trans hhome)
  obtain ⟨parts, hparts, hpackage⟩ :=
    h.packages.parts_of_find? h.root h.slashFree hsite hfound
  exact ⟨_, parts, hhome, Tree.directory_mem_owners_iff.2 hd, hparts, hpackage⟩

/-!
## Shared enums
-/

theorem Traced.contains_iff (h : records.Traced config tree start final) {name : String} :
    final.sharedEnums.contains name = true ↔ ∃ enum ∈ records.enums, enum.name = name := by
  rw [← SortedMap.mem_keys_iff,
    ← Registry.names_buildSharedEnums h.named.traced.recorded h.named.enums, List.mem_map]

/-- The definition of a shared enum was asked for by a leaf of a typedef or identity base. -/
theorem Traced.exists_source_of_find? (h : records.Traced config tree start final) {name : String}
    {definition : SharedEnum} (hfind : final.sharedEnums.find? name = some definition) :
    ∃ leaf source, (tree.directories config).Asks config leaf definition.type ∧
      definition.type.source? = some source := by
  obtain ⟨leaf, hasks, _⟩ := h.named.traced.asked hfind
  obtain ⟨_, _, hbuild⟩ := Registry.exists_built h.named.enums hfind
  obtain ⟨source, hsource⟩ := LeafType.exists_source (SharedEnum.table_build hbuild).1
  exact ⟨leaf, source, hasks, hsource⟩

/-- The name of a shared enum is made from the words of a typedef's or identity base's name. -/
theorem Traced.exists_source (h : records.Traced config tree start final) {enum : PackageEnum}
    (henum : enum ∈ records.enums) :
    ∃ source, tree.AsksFor config source ∧ MadeFrom (pascalCase source) enum.name := by
  obtain ⟨definition, hfind⟩ :=
    (SortedMap.contains_iff _ _).1 (h.contains_iff.2 ⟨enum, henum, rfl⟩)
  obtain ⟨leaf, source, hasks, hsource⟩ := h.exists_source_of_find? hfind
  have hmade := h.enums.made hfind
  rw [LeafType.enumCandidate_eq hsource] at hmade
  exact ⟨source, ⟨leaf, definition.type, hasks, hsource⟩, hmade⟩

/-- The words of the name of a typedef or identity base are themselves the name of a shared
enum. -/
theorem Traced.exists_enum (h : records.Traced config tree start final) (hnames : tree.WellNamed)
    (hasks : tree.AsksFor config source) :
    ∃ enum ∈ records.enums, enum.name = pascalCase source := by
  have hschema : ∀ {leaf type source}, (tree.directories config).Asks config leaf type →
      type.source? = some source → ':' ∉ source.toList := by
    intro leaf type source hasks hsource
    obtain ⟨owner, howner, hleaf⟩ := hasks.emitted
    rw [Tree.owners_directories h.root h.slashFree] at howner
    exact colon_notMem_of_isSchemaName
      (hnames.source (Tree.hasSite_of_mem_fields howner hleaf) hasks.type hsource)
  obtain ⟨leaf, type, hasks, hsource⟩ := hasks
  obtain ⟨owner, howner, hleaf⟩ := hasks.emitted
  obtain ⟨field, hfield⟩ := h.named.exists_field howner hleaf
  obtain ⟨name, hname, _⟩ := h.named.typeName_of_isShared hasks.isLeaf hasks.type
    (LeafType.isShared_of_source? hsource) hfield
  -- the enum may have been defined by another leaf, but then with the same source
  obtain ⟨definition, hfind, hkey⟩ := h.named.traced.traced hname
  obtain ⟨other, source', hasks', hsource'⟩ := h.exists_source_of_find? hfind
  have hsame := LeafType.source_eq_of_enumKey_eq hsource' hsource (hschema hasks' hsource')
    (hschema hasks hsource) hkey
  have hcandidate := h.enums.candidates hfind
  rw [LeafType.enumCandidate_eq hsource', hsame] at hcandidate
  exact h.contains_iff.1 hcandidate

/-- What holds of all words run together, and of all that is made from names of which it holds,
holds of every name that is defined in some package. -/
theorem Traced.forall_namesIn (h : records.Traced config tree start final) {P : String → Prop}
    (hwords : ∀ name, P (pascalCase name))
    (hmade : ∀ {candidate name}, P candidate → MadeFrom candidate name → P name)
    (hkey : ∀ {listMessage}, P listMessage → P (Registry.keyCandidate listMessage)) :
    ∀ name ∈ records.namesIn config package, P name := by
  intro name hname
  rcases List.mem_append.1 hname with hname | hname
  · obtain ⟨message, hmem, rfl⟩ := List.mem_map.1 hname
    exact h.forall_name hmade (fun site _ => hwords site.name) hkey hmem
  · obtain ⟨enum, henum, rfl⟩ := List.mem_map.1 hname
    rw [enumsIn] at henum
    split at henum
    · obtain ⟨source, _, hfrom⟩ := h.exists_source henum
      exact hmade (hwords source) hfrom
    · exact absurd henum List.not_mem_nil

end GeneratedRecords

end YangToProto

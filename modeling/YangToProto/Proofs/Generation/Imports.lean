import YangToProto.Proofs.Generation.EnumTables
import YangToProto.Proofs.Naming.PackageNames

/-!
# Imports

A file imports the packages of the messages and shared enums that its fields refer to, and nothing
else (`Output.ImportsClosed`). That holds of messages without further ado. A shared enum is imported
by the names of the base package and of the enum package as they are, so with dots in one of them
there is no file at the path (`Tree.imports_closed_iff`).
-/

namespace YangToProto

variable {config : Config} {tree : Tree} {registry : Registry} {records : GeneratedRecords}

/-- A field for the node has a type that is defined by itself in some package: a message or a shared
enum. -/
def Site.RefersOut (site : Site) : Prop :=
  site.kind.isDirectory = true ∨
    site.kind.isLeaf = true ∧ ∃ type, site.node.type = some type ∧ type.isShared = true

/-- Files import each other, and whatever their fields refer to. -/
structure Output.ImportsClosed (config : Config) (tree : Tree) (records : GeneratedRecords)
    (output : Output) : Prop where
  /-- An import leads to the file of another package. -/
  closed : ∀ package file, output.find? package = some file → ∀ path ∈ file.imports,
    ∃ other found, other ≠ package ∧ output.find? other = some found ∧
      path = Package.importPath other ∧ found.path = path ++ ".proto"
  /-- No import is repeated, and no file imports itself. -/
  once : ∀ package file, output.find? package = some file →
    file.imports.Nodup ∧ Package.importPath package ∉ file.imports
  /-- What a field refers to is defined in the package of the message or in an imported one. -/
  complete : ∀ owner package message, records.Makes config tree owner package message →
    ∃ file, output.find? package = some file ∧
      ∀ site field, (site, field) ∈
          (owner.fields config (tree.directories config)).zip message.fields →
        site.RefersOut → ∃ other name, field.typeName = Package.dotted [other, name] ∧
          name ∈ records.namesIn config other ∧
          (other ≠ package → Package.importPath other ∈ file.imports)

/-!
## What fields refer to
-/

namespace FieldType

variable {package path typeName : String} {site : Site} {type : FieldType}

/-- An import comes from a shared enum or from a message in another package. -/
theorem For.import_cases
    (h : (FieldType.reference typeName (some path)).For config registry package site) :
    (path = config.enumImport ∧ ∃ key name, registry.enumNames.find? key = some name) ∨
    ∃ home name, home ≠ package ∧ path = Package.importPath home ∧
      site.kind.isDirectory = true ∧
      registry.place? config.compressPaths (.directory site) = some (home, name) := by
  have hhome : ∀ {home}, Site.importFrom package home = some path →
      home ≠ package ∧ path = Package.importPath home := by
    intro home hpath
    rw [Site.importFrom] at hpath
    split at hpath
    · cases hpath
    · rename_i hne
      exact ⟨by simpa using hne, (Option.some.inj hpath).symm⟩
  generalize hreference : FieldType.reference typeName (some path) = reference at h
  cases h with
  | scalar _ _ _ _ => cases hreference
  | embedded _ _ _ _ _ => cases hreference
  | sharedEnum _ _ _ hname =>
      cases hreference
      exact Or.inl ⟨rfl, _, _, hname⟩
  | message hkind hplace =>
      injection hreference with _ hpath
      obtain ⟨hne, hpath⟩ := hhome hpath.symm
      exact Or.inr ⟨_, _, hne, hpath, hkind, hplace⟩
  | wrapper hkeyed _ hplace =>
      injection hreference with _ hpath
      obtain ⟨hne, hpath⟩ := hhome hpath.symm
      exact Or.inr ⟨_, _, hne, hpath, Node.isDirectory_of_isKeyedList hkeyed, hplace⟩

/-- A container or list has a field that refers to its message, or to the key wrapper in the package
of the field's own message. -/
theorem For.directory_cases (h : type.For config registry package site)
    (hkind : site.kind.isDirectory = true) :
    (∃ home name, registry.place? config.compressPaths (.directory site) = some (home, name) ∧
      type = .reference (Package.dotted [home, name]) (Site.importFrom package home)) ∨
    ∃ name path, site.node.isKeyedList = true ∧ registry.name? (.keys site) = some name ∧
      type = .reference (Package.dotted [package, name]) path := by
  have hnot : site.kind.isLeaf ≠ true := fun hleaf =>
    absurd (hkind.symm.trans (NodeKind.isDirectory_eq_false hleaf)) (by decide)
  cases h with
  | scalar hleaf _ _ _ => exact absurd hleaf hnot
  | embedded hleaf _ _ _ _ => exact absurd hleaf hnot
  | sharedEnum hleaf _ _ _ => exact absurd hleaf hnot
  | message _ hplace => exact Or.inl ⟨_, _, hplace, rfl⟩
  | wrapper hkeyed hname _ => exact Or.inr ⟨_, _, hkeyed, hname, rfl⟩

end FieldType

namespace Tree

variable {owner : Owner} {site : Site}

/-- A container or list for which some message has a field is an own field of a directory. -/
theorem exists_ownField (howner : owner ∈ tree.owners config)
    (hkeys : owner.KeysAreLeaves (tree.directories config))
    (hsite : site ∈ owner.fields config (tree.directories config))
    (hkind : site.kind.isDirectory = true) :
    ∃ directory ∈ (tree.directories config).directories,
      site ∈ (directory.ownFields config.compressPaths).map Prod.snd ∧
      owner.home? config.compressPaths = some directory.site := by
  obtain ⟨directory, hd, hmem⟩ := mem_owners_iff.1 howner
  obtain ⟨top, _, hmessage, rfl⟩ := DirectorySet.mem_collect_iff.1 hd
  have hhome := (Directory.home?_of_mem_owners hmessage hmem).1
  refine ⟨_, hd, ?_, hhome⟩
  rcases Directory.mem_owners_iff.1 hmem with ⟨field, hfield, _, rfl⟩ | rfl
  · rcases List.mem_append.1 hsite with hleaf | hself
    · have hnot := hkeys site hleaf
      rw [hnot] at hkind
      cases hkind
    · rw [List.mem_singleton.1 hself]
      exact List.mem_map_of_mem hfield
  · exact hsite

/-- So it has a message. -/
theorem directory_mem_owners (howner : owner ∈ tree.owners config)
    (hkeys : owner.KeysAreLeaves (tree.directories config))
    (hsite : site ∈ owner.fields config (tree.directories config))
    (hkind : site.kind.isDirectory = true) : Owner.directory site ∈ tree.owners config := by
  obtain ⟨directory, hd, hmem, _⟩ := exists_ownField howner hkeys hsite hkind
  obtain ⟨⟨name, field⟩, hfield, rfl⟩ := List.mem_map.1 hmem
  exact mem_owners_iff.2 ⟨_, DirectorySet.mem_collect_of_field hd (List.mem_filter.1 hfield).1
    hkind, Directory.mem_owners_iff.2 (Or.inr rfl)⟩

/-- If it has keys, their wrapper stands beside the message with the field. -/
theorem keys_mem_owners (howner : owner ∈ tree.owners config)
    (hkeys : owner.KeysAreLeaves (tree.directories config))
    (hsite : site ∈ owner.fields config (tree.directories config))
    (hkeyed : site.node.isKeyedList = true) :
    Owner.keys site ∈ tree.owners config ∧
      (Owner.keys site).home? config.compressPaths = owner.home? config.compressPaths := by
  obtain ⟨directory, hd, hmem, hhome⟩ :=
    exists_ownField howner hkeys hsite (Node.isDirectory_of_isKeyedList hkeyed)
  obtain ⟨field, hfield, rfl⟩ := List.mem_map.1 hmem
  have hwrapper := Directory.mem_owners_iff.2 (Or.inl ⟨field, hfield, hkeyed, rfl⟩)
  obtain ⟨top, _, hmessage, rfl⟩ := DirectorySet.mem_collect_iff.1 hd
  rw [hhome]
  exact ⟨mem_owners_iff.2 ⟨_, hd, hwrapper⟩, (Directory.home?_of_mem_owners hmessage hwrapper).1⟩

end Tree

/-!
## Files and their messages
-/

namespace GeneratedRecords

variable {sources : Sources} {owner : Owner} {package name : String} {message : Message}

theorem mem_messages_iff :
    (package, message) ∈ records.messages ↔ message ∈ records.messagesIn package := by
  simp only [messages, messagesIn, List.mem_flatMap, List.mem_map, List.mem_filter, beq_iff_eq,
    Prod.mk.injEq]
  constructor
  · rintro ⟨group, hgroup, _, hmem, rfl, rfl⟩
    exact ⟨group, ⟨hgroup, rfl⟩, hmem⟩
  · rintro ⟨group, ⟨hgroup, rfl⟩, hmem⟩
    exact ⟨group, hgroup, message, hmem, rfl, rfl⟩

theorem exists_file_of_mem (config : Config) (sources : Sources)
    (h : message ∈ records.messagesIn package) :
    ∃ file, (records.output config sources).find? package = some file := by
  obtain ⟨group, hgroup, _⟩ := List.mem_flatMap.1 h
  obtain ⟨hgroup, hpackage⟩ := List.mem_filter.1 hgroup
  rw [beq_iff_eq] at hpackage
  rw [← hpackage]
  exact (records.holds_output config sources).2.1 group hgroup

theorem path_of_find? {file : ProtoFile}
    (h : (records.output config sources).find? package = some file) :
    file.path = Package.importPath package ++ ".proto" := by
  rw [find?_output] at h
  obtain ⟨body, _, rfl⟩ := Option.map_eq_some_iff.1 h
  rfl

/-- The message of an owner stands in the place that the registry has for it. -/
theorem NamedBy.exists_message (h : records.NamedBy config tree registry)
    (hroot : tree.root.Distinct) (hslash : tree.SlashFree) (howner : owner ∈ tree.owners config)
    (hplace : registry.place? config.compressPaths owner = some (package, name)) :
    ∃ message ∈ records.messagesIn package, message.name = name := by
  rw [← Tree.owners_directories hroot hslash] at howner
  obtain ⟨own, message, hmakes⟩ := h.exists_makes howner
  obtain ⟨hmade, hpackage⟩ := h.of_makes hmakes
  obtain ⟨hpackage', hname⟩ := Registry.place?_eq_some_iff.1 hplace
  have hmem := (List.of_mem_zip hmakes).2
  have hsame : message.package = own := h.package_eq hroot hslash _ hmem
  obtain rfl := Option.some.inj (hpackage'.symm.trans hpackage)
  obtain rfl := Option.some.inj (hname.symm.trans hmade.name)
  rw [← hsame] at hmem
  exact ⟨message, mem_messages_iff.1 hmem, rfl⟩

/-- Each message is made for an owner. -/
theorem NamedBy.exists_owner (h : records.NamedBy config tree registry)
    (hmessage : message ∈ records.messagesIn package) :
    ∃ owner, records.Makes config tree owner package message := by
  have hmem := mem_messages_iff.2 hmessage
  rw [← List.map_snd_zip (Nat.le_of_eq h.madeFor.length_eq.symm)] at hmem
  obtain ⟨⟨owner, _, _⟩, hmakes, hsame⟩ := List.mem_map.1 hmem
  cases hsame
  exact ⟨owner, hmakes⟩

theorem Makes.mem_owners (h : records.Makes config tree owner package message)
    (hroot : tree.root.Distinct) (hslash : tree.SlashFree) : owner ∈ tree.owners config := by
  rw [← Tree.owners_directories hroot hslash]
  exact (List.of_mem_zip h).1

theorem Makes.mem_messagesIn (h : records.Makes config tree owner package message) :
    message ∈ records.messagesIn package :=
  mem_messages_iff.1 (List.of_mem_zip h).2

/-- Where there are shared enums, some message imports them. -/
theorem NamedBy.exists_enumImport (h : records.NamedBy config tree registry)
    (hne : records.enums ≠ []) :
    ∃ package, ∃ message ∈ records.messagesIn package, config.enumImport ∈ message.imports := by
  obtain ⟨enum, henum⟩ := List.exists_mem_of_ne_nil _ hne
  have hkey : enum.name ∈ registry.sharedEnums.keys := by
    rw [← Registry.names_buildSharedEnums h.traced.recorded h.enums]
    exact List.mem_map_of_mem henum
  obtain ⟨definition, hfind⟩ :=
    (SortedMap.contains_iff _ _).1 ((SortedMap.mem_keys_iff _ _).1 hkey)
  obtain ⟨leaf, hasks, _⟩ := h.traced.asked hfind
  obtain ⟨_, _, hbuild⟩ := Registry.exists_built h.enums hfind
  have hshared := LeafType.isShared_of_isNamedEnum (SharedEnum.table_build hbuild).1
  obtain ⟨owner, howner, hleaf⟩ := hasks.emitted
  obtain ⟨package, message, hmakes⟩ := h.exists_makes howner
  obtain ⟨field, _, type, hfor, hshown⟩ :=
    exists_mem_right_of_forall₂ (h.of_makes hmakes).1.fields hleaf
  obtain ⟨name, _, rfl⟩ := hfor.eq_of_isShared hasks.isLeaf hasks.type hshared
  exact ⟨package, message, hmakes.mem_messagesIn, hshown.2 _ rfl⟩

section Run

variable (hnamed : records.NamedBy config tree registry) (hroot : tree.root.Distinct)
  (hslash : tree.SlashFree)

include hnamed hroot hslash

theorem package?_of_makes (hmakes : records.Makes config tree owner package message) :
    message.package = package ∧
      registry.package? config.compressPaths owner = some package := by
  have hsame : message.package = package :=
    hnamed.package_eq hroot hslash _ (List.of_mem_zip hmakes).2
  exact ⟨hsame, hsame ▸ (hnamed.of_makes hmakes).2⟩

/-- What a message imports from other packages is there, except maybe for shared enums. -/
theorem import_cases (hmessage : message ∈ records.messagesIn package) {path : String}
    (hpath : path ∈ message.imports) :
    (path = config.enumImport ∧ records.enums ≠ []) ∨
    ∃ other, other ≠ package ∧ path = Package.importPath other ∧
      ∃ file, (records.output config sources).find? other = some file := by
  obtain ⟨owner, hmakes⟩ := hnamed.exists_owner hmessage
  have howner := hmakes.mem_owners hroot hslash
  obtain ⟨hsame, _⟩ := package?_of_makes hnamed hroot hslash hmakes
  obtain ⟨hmade, _⟩ := hnamed.of_makes hmakes
  obtain ⟨site, hsite, typeName, hfor⟩ := hmade.imports path hpath
  rcases hfor.import_cases with ⟨rfl, key, name, hname⟩ | ⟨home, name, hne, rfl, hkind, hplace⟩
  · obtain ⟨enum, henum, _⟩ := hnamed.exists_first hname
    exact Or.inl ⟨rfl, List.ne_nil_of_mem henum⟩
  · have hdirectory := Tree.directory_mem_owners howner hmade.keys hsite hkind
    obtain ⟨other, hother, _⟩ := hnamed.exists_message hroot hslash hdirectory hplace
    exact Or.inr ⟨home, hsame ▸ hne, rfl, exists_file_of_mem config sources hother⟩

/-- What a field refers to is defined, and if that is in another package, the message imports it. -/
theorem reference_cases (hmakes : records.Makes config tree owner package message) {site : Site}
    {field : Field}
    (hfield : (site, field) ∈ (owner.fields config (tree.directories config)).zip message.fields)
    (hrefers : site.RefersOut) :
    (∃ other name, field.typeName = Package.dotted [other, name] ∧
      name ∈ records.namesIn config other ∧
      (other ≠ package → (∃ anchor, registry.packages.find? anchor = some other) ∧
        Package.importPath other ∈ message.imports)) ∨
    ∃ name, field.typeName = Package.dotted [config.enumPackage, name] ∧
      name ∈ records.namesIn config config.enumPackage ∧ records.enums ≠ [] ∧
      config.enumImport ∈ message.imports := by
  have howner := hmakes.mem_owners hroot hslash
  obtain ⟨hsame, hpackage⟩ := package?_of_makes hnamed hroot hslash hmakes
  obtain ⟨hmade, _⟩ := hnamed.of_makes hmakes
  have hsite := (List.of_mem_zip hfield).1
  obtain ⟨type, hfor, hshown⟩ := List.forall₂_zip hmade.fields hfield
  rw [hsame] at hfor
  have hdefined : ∀ {owner own name}, owner ∈ tree.owners config →
      registry.place? config.compressPaths owner = some (own, name) →
      name ∈ records.namesIn config own := by
    intro owner own name howner hplace
    obtain ⟨message, hmem, rfl⟩ := hnamed.exists_message hroot hslash howner hplace
    exact List.mem_append_left _ (List.mem_map_of_mem hmem)
  rcases hrefers with hkind | ⟨hkind, leafType, htype, hshared⟩
  · rcases hfor.directory_cases hkind with
      ⟨home, name, hplace, rfl⟩ | ⟨name, path, hkeyed, hname, rfl⟩
    · refine Or.inl ⟨home, name, hshown.1,
        hdefined (Tree.directory_mem_owners howner hmade.keys hsite hkind) hplace, fun hne => ?_⟩
      obtain ⟨own, _, hfind⟩ := Option.bind_eq_some_iff.1 (Registry.place?_eq_some_iff.1 hplace).1
      refine ⟨⟨_, hfind⟩, hshown.2 _ ?_⟩
      rw [Site.importFrom, if_neg (by simpa using hne)]
      rfl
    · obtain ⟨hwrapper, hhome⟩ := Tree.keys_mem_owners howner hmade.keys hsite hkeyed
      have hplace : registry.place? config.compressPaths (.keys site) = some (package, name) := by
        refine Registry.place?_eq_some_iff.2 ⟨?_, hname⟩
        rw [Registry.package?, hhome]
        exact hpackage
      exact Or.inl ⟨package, name, hshown.1, hdefined hwrapper hplace, fun hne => absurd rfl hne⟩
  · obtain ⟨name, hname, rfl⟩ := hfor.eq_of_isShared hkind htype hshared
    obtain ⟨enum, henum, rfl, _⟩ := hnamed.exists_first hname
    refine Or.inr ⟨enum.name, hshown.1, List.mem_append_right _ ?_, List.ne_nil_of_mem henum,
      hshown.2 _ rfl⟩
    rw [enumsIn, if_pos rfl]
    exact List.mem_map_of_mem henum

/-- Imports are closed exactly if shared enums, where there are some, are imported by the path of
their file. -/
theorem importsClosed_iff (hpackages : registry.SlashFree)
    (henumPackage : '/' ∉ config.enumPackage.toList) :
    (records.output config sources).ImportsClosed config tree records ↔
      (records.enums ≠ [] → config.enumImport = Package.importPath config.enumPackage) := by
  constructor
  · intro hclosed hne
    obtain ⟨package, message, hmessage, himport⟩ := hnamed.exists_enumImport hne
    obtain ⟨file, hfile⟩ := exists_file_of_mem config sources hmessage
    by_cases hown : config.enumImport = Package.importPath package
    · exact Config.enumImport_eq_of_eq hown
    · have hmem := ((imports_file hfile).2 _).2 ⟨hown, message, hmessage, himport⟩
      obtain ⟨other, _, _, _, hpath, _⟩ := hclosed.closed package file hfile _ hmem
      exact Config.enumImport_eq_of_eq hpath
  · intro henums
    refine ⟨fun package file hfile path hpath => ?_, fun package file hfile => ?_,
      fun owner package message hmakes => ?_⟩
    · obtain ⟨hne, message, hmessage, himport⟩ := ((imports_file hfile).2 path).1 hpath
      rcases import_cases hnamed hroot hslash hmessage himport with
        ⟨rfl, hsome⟩ | ⟨other, hother, rfl, found, hfound⟩
      · obtain ⟨found, hfound⟩ := (records.holds_output config sources).2.2 hsome
        have hpath := henums hsome
        have hother : config.enumPackage ≠ package := fun heq => hne (heq ▸ hpath)
        exact ⟨_, found, hother, hfound, hpath, by rw [hpath, path_of_find? hfound]⟩
      · exact ⟨other, found, hother, hfound, rfl, path_of_find? hfound⟩
    · obtain ⟨hnodup, himports⟩ := imports_file hfile
      exact ⟨hnodup, fun hmem => ((himports _).1 hmem).1 rfl⟩
    · have hmessage := hmakes.mem_messagesIn
      obtain ⟨file, hfile⟩ := exists_file_of_mem config sources hmessage
      obtain ⟨_, hpackage⟩ := package?_of_makes hnamed hroot hslash hmakes
      obtain ⟨_, _, hown⟩ := Option.bind_eq_some_iff.1 hpackage
      -- packages without slashes have different import paths, so the file imports all but its own
      have hfound : ∀ {other}, '/' ∉ other.toList → other ≠ package →
          Package.importPath other ∈ message.imports → Package.importPath other ∈ file.imports := by
        intro other hother hne himport
        refine ((imports_file hfile).2 _).2 ⟨fun heq => hne ?_, message, hmessage, himport⟩
        exact Package.importPath_injective hother (hpackages.packages hown) heq
      refine ⟨file, hfile, fun site field hfield hrefers => ?_⟩
      rcases reference_cases hnamed hroot hslash hmakes hfield hrefers with
        ⟨other, name, htype, hname, himport⟩ | ⟨name, htype, hname, hsome, himport⟩
      · refine ⟨other, name, htype, hname, fun hne => ?_⟩
        obtain ⟨⟨anchor, hfind⟩, hmem⟩ := himport hne
        exact hfound (hpackages.packages hfind) hne hmem
      · refine ⟨config.enumPackage, name, htype, hname, fun hne => ?_⟩
        exact hfound henumPackage hne (henums hsome ▸ himport)

end Run

end GeneratedRecords

/-- In a run that succeeds, where neither the nodes nor the configured packages have a slash in
their names, every import leads to another file and every file imports what its fields refer to,
exactly if there is no shared enum or no dot in the two configured names. -/
theorem Tree.imports_closed_iff {declared : Node} {tree : Tree}
    (htree : Tree.ofNode declared = .ok tree) (hslash : tree.SlashFree) {config : Config}
    (hbase : '/' ∉ config.basePackage.toList) (henum : '/' ∉ config.enumPackageName.toList)
    {sources : Sources} {ledger : Ledger} {output : Output}
    (h : (tree.generate config sources ledger).1 = .ok output) :
    ∃ records, (tree.generateRecords config ledger).1 = .ok records ∧
      output = records.output config sources ∧
      (output.ImportsClosed config tree records ↔ records.enums = [] ∨
        '.' ∉ config.basePackage.toList ∧ '.' ∉ config.enumPackageName.toList) := by
  obtain ⟨records, hrecords, rfl⟩ := Tree.exists_records_of_generate h
  obtain ⟨start, final, hready, hgrows, hnamed⟩ := Tree.exists_namedBy_of_generateRecords hrecords
  have hpackages := hgrows.slashFree (Registry.slashFree_ready hbase hready)
  refine ⟨records, congrArg Prod.fst hrecords, rfl, ?_⟩
  rw [GeneratedRecords.importsClosed_iff hnamed (Tree.distinct_root htree) hslash hpackages
    (Config.slash_notMem_enumPackage hbase henum), Config.enumImport_eq_iff]
  exact or_iff_not_imp_left.symm

theorem Tree.imports_closed_iff_two_packages :
    let state := Node.leaf "state" (.typedefEnum "admin-state" [⟨"ENABLED", 0⟩])
    let inner := Node.container "inner" [Node.leaf "x" .string]
    let declared := Node.module "m" [Node.container "top" [inner, state]]
    let tree := Tree.copyOf declared
    let config : Config := {}
    Tree.ofNode declared = .ok tree ∧ tree.SlashFree ∧ '/' ∉ config.basePackage.toList ∧
      '/' ∉ config.enumPackageName.toList ∧
      ∃ output, (tree.generate config {} ∅).1 = .ok output ∧
      ∃ records, (tree.generateRecords config ∅).1 = .ok records ∧
        output = records.output config {} ∧
        (output.ImportsClosed config tree records ↔ records.enums = [] ∨
          '.' ∉ config.basePackage.toList ∧ '.' ∉ config.enumPackageName.toList) := by
  intro state inner declared tree config
  have htree : Tree.ofNode declared = .ok tree :=
    Tree.ofNode_eq rfl (by decide +kernel)
  have hslash : tree.SlashFree := Tree.slashFree_of_sites (by decide +kernel)
  have hbase : '/' ∉ config.basePackage.toList := by decide
  have henum : '/' ∉ config.enumPackageName.toList := by decide
  have hsome : (tree.generate config {} ∅).1.toOption.isSome = true := by decide +kernel
  obtain ⟨output, hrun⟩ := exists_eq_ok_of_isSome hsome
  exact ⟨htree, hslash, hbase, henum, output, hrun,
    Tree.imports_closed_iff htree hslash hbase henum hrun⟩

/-- With a dot in the base package a message that uses a shared enum imports `acme.net/enums`, while
the file of the enum is `acme/net/enums.proto`. -/
theorem Tree.not_imports_closed :
    let state := Node.leaf "state" (.typedefEnum "admin-state" [⟨"ENABLED", 0⟩, ⟨"DISABLED", 1⟩])
    let declared := Node.module "m" [Node.container "top" [state]]
    let tree := Tree.copyOf declared
    let config : Config := { basePackage := "acme.net" }
    Tree.ofNode declared = .ok tree ∧ tree.SlashFree ∧
      ∃ output, (tree.generate config {} ∅).1 = .ok output ∧
      ∃ records, (tree.generateRecords config ∅).1 = .ok records ∧
        output = records.output config {} ∧ ¬ output.ImportsClosed config tree records := by
  intro state declared tree config
  have htree : Tree.ofNode declared = .ok tree :=
    Tree.ofNode_eq rfl (by decide +kernel)
  have hroot := Tree.distinct_root htree
  have hslash : tree.SlashFree := Tree.slashFree_of_sites (by decide +kernel)
  have hsome : (tree.generate config {} ∅).1.toOption.isSome = true := by decide +kernel
  obtain ⟨output, hrun⟩ := exists_eq_ok_of_isSome hsome
  obtain ⟨records, hrecords, houtput⟩ := Tree.exists_records_of_generate hrun
  obtain ⟨start, final, hready, hgrows, hnamed⟩ := Tree.exists_namedBy_of_generateRecords hrecords
  refine ⟨htree, hslash, output, hrun, records, congrArg Prod.fst hrecords, houtput,
    fun hclosed => ?_⟩
  let top : Site := ⟨Node.container "top" [state], [declared]⟩
  have htop : tree.HasSite top := Site.Under.self.step List.mem_cons_self
  have hleaf : tree.HasSite (top.below state) := htop.step List.mem_cons_self
  obtain ⟨field, hfield⟩ :=
    hnamed.exists_field_of_path hroot hslash htop rfl hleaf (by decide +kernel)
  obtain ⟨name, hname, _⟩ := hnamed.typeName_of_isShared rfl rfl rfl hfield
  obtain ⟨enum, henum, _⟩ := hnamed.exists_first hname
  have hpackages := hgrows.slashFree (Registry.slashFree_ready (by decide) hready)
  rw [houtput, GeneratedRecords.importsClosed_iff hnamed hroot hslash hpackages (by decide)]
    at hclosed
  exact absurd (config.enumImport_eq_iff.1 (hclosed (List.ne_nil_of_mem henum))).1 (by decide)

end YangToProto

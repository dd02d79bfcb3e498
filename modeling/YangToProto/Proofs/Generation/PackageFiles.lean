import YangToProto.Proofs.Generation.Drift
import YangToProto.Proofs.Generation.FirstUse
import YangToProto.Proofs.Generation.Grouping
import YangToProto.Proofs.Naming.PackageSharing
import YangToProto.Proofs.Proto.PackagePaths

/-!
# Files in places of their own

A package is the base package with a part for each ancestor that has a message, and perhaps a
numeric suffix. Where the base package and that of the enums are identifiers joined by dots and no
name below the module is empty, all packages of a run are such identifiers (`Registry.Named`), so
their files lie at different places below any directory (`Tree.apart_of_generate`).
-/

namespace YangToProto

variable {config : Config} {tree : Tree} {compress : Bool} {registry : Registry} {site : Site}

/-- None of the nodes below the module has an empty name. -/
def Tree.Named (tree : Tree) : Prop :=
  ∀ site, tree.HasSite site → site.ancestors ≠ [] → site.name ≠ ""

/-- None of the ancestors that name the package of the node has an empty name. -/
def Site.Named (compress : Bool) (site : Site) : Prop :=
  ∀ kept ∈ keptAmong compress site.ancestors, kept.name ≠ ""

theorem Tree.HasSite.named (hnamed : tree.Named) (h : tree.HasSite site) :
    site.Named compress := by
  intro kept hkept
  obtain ⟨hsite, hbelow⟩ := h.of_mem_keptAmong hkept
  exact hnamed kept hsite hbelow

theorem Site.isName_packageCandidate {base : String} (hbase : Package.IsName base)
    (h : site.Named compress) : Package.IsName (site.packageCandidate compress base) := by
  refine hbase.dotted fun part hpart => ?_
  obtain ⟨kept, hkept, rfl⟩ := List.mem_map.1 (List.mem_reverse.1 hpart)
  exact Package.isName_sanitize (h kept hkept)

namespace Registry

/-- The base package and all packages that have been given out are identifiers joined by dots. -/
structure Named (registry : Registry) : Prop where
  base : Package.IsName registry.basePackage
  packages : ∀ {anchor package}, registry.packages.find? anchor = some package →
    Package.IsName package

/-- The step gives out such packages only. -/
abbrev KeepsNamed {ε α : Type} (step : ExceptT ε (StateM Registry) α) : Prop :=
  Moves (fun registry after : Registry => registry.Named → after.Named) step

theorem Named.packageFor (h : registry.Named) (hsite : site.Named compress) :
    Package.IsName (packageFor compress site registry).1 ∧
      (packageFor compress site registry).2.Named := by
  rw [packageFor_eq]
  cases hfind : registry.packages.find? (site.anchor compress) with
  | some package => exact ⟨h.packages hfind, h⟩
  | none =>
      have hname := (site.isName_packageCandidate h.base hsite).firstFree registry.usedPackages
      refine ⟨hname, h.base, fun {anchor package} hpackage => ?_⟩
      change (registry.packages.insert _ _).find? anchor = some package at hpackage
      rw [SortedMap.find?_insert] at hpackage
      split at hpackage
      · cases hpackage
        exact hname
      · exact h.packages hpackage

theorem Named.withName (h : registry.Named) (owner : Owner) (package name : String)
    (count : Nat) : (registry.withName owner package name count).Named := by
  cases owner with
  | directory site => exact ⟨h.base, h.packages⟩
  | keys list => exact ⟨h.base, h.packages⟩

theorem keepsNamed_packageFor {ε : Type} (hsite : site.Named compress) :
    KeepsNamed (liftM (packageFor compress site) : ExceptT ε (StateM Registry) String) :=
  fun _ h => (h.packageFor hsite).2

theorem keepsNamed_messageName (hsite : site.Named compress) :
    KeepsNamed (messageName compress site) := fun _ h =>
  messageName_keeps h (fun h => (h.packageFor hsite).2) fun package name count h =>
    h.withName (.directory site) package name count

theorem keepsNamed_keyMessageName (list : Site) (listMessage package : String) :
    KeepsNamed (keyMessageName list listMessage package) := fun _ h =>
  keyMessageName_keeps h fun name count h => h.withName (.keys list) package name count

namespace KeepsNamed

variable {ε α β : Type}

theorem pure (value : α) : KeepsNamed (pure value : ExceptT ε (StateM Registry) α) := fun _ h => h

theorem bind {step : ExceptT ε (StateM Registry) α} {next : α → ExceptT ε (StateM Registry) β}
    (h : KeepsNamed step) (h' : ∀ value, KeepsNamed (next value)) : KeepsNamed (step >>= next) :=
  Moves.bind (r := fun registry after : Registry => registry.Named → after.Named)
    (fun _ _ _ hfirst hsecond h => hsecond (hfirst h)) h h'

end KeepsNamed

/-!
## Naming what directories need
-/

theorem keepsNamed_nameMessages {directories : List Directory}
    (h : ∀ directory ∈ directories, directory.site.Named compress) :
    KeepsNamed (nameMessages compress directories) := by
  induction directories with
  | nil => exact .pure ()
  | cons directory rest ih =>
      exact .bind (keepsNamed_messageName (h directory List.mem_cons_self)) fun _ =>
        ih fun other ho => h other (List.mem_cons_of_mem _ ho)

theorem keepsNamed_nameKeysOf {fields : List Site} (h : ∀ field ∈ fields, field.Named compress)
    (package : String) : KeepsNamed (nameKeysOf compress package fields) := by
  induction fields with
  | nil => exact .pure ()
  | cons field rest ih =>
      have hrest := ih fun other ho => h other (List.mem_cons_of_mem _ ho)
      rw [nameKeysOf]
      split
      · exact .bind (keepsNamed_messageName (h field List.mem_cons_self)) fun _ =>
          .bind (keepsNamed_keyMessageName field _ package) fun _ => hrest
      · exact hrest

theorem keepsNamed_nameKeys {directories : List Directory}
    (h : ∀ directory ∈ directories, directory.site.Named compress ∧
      ∀ field ∈ directory.fields.values, field.Named compress) :
    KeepsNamed (nameKeys compress directories) := by
  induction directories with
  | nil => exact .pure ()
  | cons directory rest ih =>
      obtain ⟨hsite, hfields⟩ := h directory List.mem_cons_self
      exact .bind (keepsNamed_packageFor hsite) fun package =>
        .bind (keepsNamed_nameKeysOf hfields package) fun _ =>
          ih fun other ho => h other (List.mem_cons_of_mem _ ho)

end Registry

/-- In a tree without empty names, the packages of everything that directories need are named by
their ancestors. -/
theorem Tree.named_of_needs (hnamed : tree.Named) {owner : Owner}
    (h : (tree.directories config).Needs owner) : owner.site.Named compress := by
  cases owner with
  | directory site =>
      obtain ⟨directory, hd, rfl⟩ := h
      exact (DirectorySet.hasSite_of_mem_collect hd).named hnamed
  | keys list =>
      obtain ⟨_, directory, hd, hlist⟩ := h
      exact (DirectorySet.hasSite_and_holder?_of_mem_collect hd hlist).1.named hnamed

theorem Registry.Named.ready (hbase : Package.IsName config.basePackage) (hnamed : tree.Named)
    (h : Registry.ready config (tree.directories config) = .ok registry) : registry.Named := by
  have hsteps : KeepsNamed (do
      nameMessages config.compressPaths (tree.directories config).directories
      nameKeys config.compressPaths (tree.directories config).directories) :=
    .bind (keepsNamed_nameMessages fun directory hd =>
      (DirectorySet.hasSite_of_mem_collect hd).named hnamed) fun _ =>
    keepsNamed_nameKeys fun directory hd =>
      ⟨(DirectorySet.hasSite_of_mem_collect hd).named hnamed, fun field hfield =>
        (DirectorySet.hasSite_and_holder?_of_mem_collect hd hfield).1.named hnamed⟩
  have hafter := hsteps (cold config) ⟨hbase, (nomatch ·)⟩
  rw [Registry.ready, prepopulate] at h
  split at h
  · rename_i named hrun
    rw [hrun] at hafter
    cases h
    exact ⟨hafter.base, hafter.packages⟩
  · cases h

/-!
## Drafting and grouping
-/

theorem Registry.Named.of_samePackages {after : Registry} (h : registry.Named)
    (hsame : registry.SamePackages after) : after.Named where
  base := hsame.base ▸ h.base
  packages := fun hpackage => h.packages (hsame.packages ▸ hpackage)

namespace DraftStep

variable {leaves : Site → LeafType → Prop} {asks : Owner → Prop} {α : Type}

theorem keepsNamed_tryAll {steps : List (Drafting α)}
    (h : ∀ step ∈ steps, Registry.KeepsNamed step) (hnamed : registry.Named) :
    (tryAll steps registry).2.Named := by
  induction steps generalizing registry with
  | nil => exact hnamed
  | cons step rest ih =>
      rw [tryAll_cons]
      exact ih (fun other ho => h other (List.mem_cons_of_mem _ ho))
        (h step List.mem_cons_self registry hnamed)

/-- A drafting step that asks for messages with such packages only gives out such packages. -/
theorem keepsNamed {step : Drafting α}
    (hasks : ∀ site, asks (.directory site) → site.Named compress)
    (h : DraftStep compress leaves asks step) : Registry.KeepsNamed step := by
  induction h with
  | pure value => exact .pure value
  | throw _ => exact fun _ h => h
  | package hsite => exact Registry.keepsNamed_packageFor (hasks _ hsite)
  | message hsite => exact Registry.keepsNamed_messageName (hasks _ hsite)
  | keyMessage _ listMessage package =>
      exact Registry.keepsNamed_keyMessageName _ listMessage package
  | leaf hleaf =>
      exact fun registry h => h.of_samePackages (hleaf.sameNames registry).toSamePackages
  | bind _ _ ih ih' => exact .bind ih ih'
  | @collect β γ steps next _ _ ih ih' =>
      have hsteps : Registry.KeepsNamed
          (liftM (tryAll steps) : Drafting (List (Except GenerationErrors β))) :=
        fun _ h => keepsNamed_tryAll ih h
      have hgather : ∀ outcomes : List (Except GenerationErrors β), Registry.KeepsNamed
          (liftM (GenerationErrors.gather outcomes) : Drafting (List β)) := fun _ _ h => h
      exact .bind hsteps fun outcomes => .bind (hgather outcomes) ih'

end DraftStep

theorem Registry.KeepsNamed.draft (hnamed : tree.Named) {directory : Directory}
    (hd : directory ∈ (tree.directories config).directories) :
    KeepsNamed (directory.draft config (tree.directories config)) := by
  have hstep : DraftStep config.compressPaths Site.anyLeaf (tree.directories config).Needs
      (directory.draft config (tree.directories config)) :=
    Directory.draftStep ⟨directory, hd, rfl⟩ (Directory.mayAsk_of_mem hd) (Site.allAskAs_anyLeaf _)
  exact hstep.keepsNamed fun site hneeds => Tree.named_of_needs hnamed hneeds

theorem Registry.Named.messageGroups (hnamed : tree.Named) {directories : List Directory}
    (hdirectories : ∀ directory ∈ directories,
      directory ∈ (tree.directories config).directories)
    {state ended : GenerationState} {outcomes : List (Except GenerationErrors MessageGroup)}
    {groups : List MessageGroup} (h : state.registry.Named)
    (hrun : (tree.directories config).messageGroups config directories state = (outcomes, ended))
    (hgather : GenerationErrors.gather outcomes = .ok groups) :
    ∀ group ∈ groups, Package.IsName group.package := by
  induction directories generalizing state outcomes groups with
  | nil =>
      cases hrun
      cases hgather
      exact fun group hgroup => nomatch hgroup
  | cons directory rest ih =>
      obtain ⟨group, more, reached, others, rfl, hfirst, hothers, hmore⟩ :=
        DirectorySet.of_messageGroups_cons hrun hgather
      obtain ⟨found, draft, tags, middle, package, hfound, hdraft, _, hpackage, rfl⟩ :=
        Site.of_messageGroup hfirst
      have hsite : directory.site.Named config.compressPaths :=
        (DirectorySet.hasSite_of_mem_collect (hdirectories directory List.mem_cons_self)).named
          hnamed
      have hmiddle := KeepsNamed.draft hnamed (DirectorySet.mem_of_find? hfound) _ h
      rw [hdraft] at hmiddle
      have hgroup := hmiddle.packageFor hsite
      rw [hpackage] at hgroup
      intro other ho
      rcases List.mem_cons.1 ho with rfl | ho
      · exact hgroup.1
      · exact ih (fun later hl => hdirectories later (List.mem_cons_of_mem _ hl)) hgroup.2 hothers
          hmore other ho

/-- Where the base package, that of the enums and the nodes below the module have names, all
packages that get a file are identifiers joined by dots. -/
theorem Tree.isName_of_generate (hbase : Package.IsName config.basePackage)
    (henum : Package.IsName config.enumPackage) (hnamed : tree.Named) {sources : Sources}
    {ledger : Ledger} {output : Output}
    (h : (tree.generate config sources ledger).1 = .ok output) {package : String}
    {file : ProtoFile} (hfile : output.find? package = some file) : Package.IsName package := by
  obtain ⟨records, hrecords, rfl⟩ := Tree.exists_records_of_generate h
  obtain ⟨start, outcomes, ended, hready, hrun, hgather, _⟩ := Tree.of_generateRecords hrecords
  have hgroups := (Registry.Named.ready hbase hnamed hready).messageGroups hnamed
    (fun _ hd => hd) hrun hgather
  rcases GeneratedRecords.exists_file_iff.1 ⟨file, hfile⟩ with ⟨group, hgroup, rfl⟩ | ⟨rfl, _⟩
  · exact hgroups group hgroup
  · exact henum

/-- Each file of a run has the path of its package. -/
theorem Output.path_of_mem {sources : Sources} {ledger : Ledger} {output : Output}
    (h : (tree.generate config sources ledger).1 = .ok output) {file : ProtoFile}
    (hfile : file ∈ output.toList) :
    output.find? file.package = some file ∧ file.path = Package.filePath file.package := by
  obtain ⟨records, _, rfl⟩ := Tree.exists_records_of_generate h
  obtain ⟨⟨package, found⟩, hentry, rfl⟩ := List.mem_map.1 hfile
  have hfind : (records.output config sources).find? package = some found :=
    (SortedMap.mem_entries_iff _ _ _).1 hentry
  have hbody := hfind
  rw [GeneratedRecords.find?_output] at hbody
  obtain ⟨body, _, rfl⟩ := Option.map_eq_some_iff.1 hbody
  exact ⟨hfind, rfl⟩

/-- Where the base package, that of the enums and the nodes below the module have names, files at
one place are the same file. -/
theorem Tree.apart_of_generate (hbase : Package.IsName config.basePackage)
    (henum : Package.IsName config.enumPackage) (hnamed : tree.Named) {sources : Sources}
    {ledger : Ledger} {output : Output}
    (h : (tree.generate config sources ledger).1 = .ok output) {disk : Disk} {dir : String}
    {file other : ProtoFile} (hfile : file ∈ output.toList) (hother : other ∈ output.toList)
    (hsame : disk.SamePlace (file.pathIn dir) (other.pathIn dir)) : file = other := by
  obtain ⟨hfind, hpath⟩ := Output.path_of_mem h hfile
  obtain ⟨hfind', hpath'⟩ := Output.path_of_mem h hother
  have hname := Tree.isName_of_generate hbase henum hnamed h hfind
  have hname' := Tree.isName_of_generate hbase henum hnamed h hfind'
  rw [ProtoFile.pathIn, hpath, ProtoFile.pathIn, hpath'] at hsame
  have hpaths := Disk.SamePlace.eq_of_descends hname.descends hname'.descends hsame
  have hpackage := Package.filePath_injective hname hname' hpaths
  rw [hpackage, hfind'] at hfind
  exact (Option.some.inj hfind).symm

end YangToProto

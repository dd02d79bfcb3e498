import YangToProto.Proofs.Generation.FirstUse
import YangToProto.Proofs.Generation.Lockstep

/-!
# First use and names given before

A run that names messages on first use succeeds exactly if the usual run does, with the same errors
and the same ledger. Where no name holds a slash, it generates the same records exactly if it gives
no key wrapper a place that the usual run has kept for another message
(`Tree.first_use_agrees_iff`).
-/

namespace YangToProto

variable {config : Config} {tree : Tree} {set : DirectorySet} {owners : List Owner}

/-!
## The two orders of naming
-/

theorem isDirectory_of_mem_keyOwners {fields : List (String × Site)} {owner : Owner}
    (h : owner ∈ fields.flatMap fun field => field.2.keyOwners) : owner.isDirectory = false := by
  obtain ⟨field, _, hmem⟩ := List.mem_flatMap.1 h
  rw [(Site.mem_keyOwners_iff.1 hmem).2]
  rfl

theorem Directory.filter_ownersInTurn (compress : Bool) (directory : Directory) :
    (directory.ownersInTurn compress).filter Owner.isDirectory = [.directory directory.site] ∧
      (directory.ownersInTurn compress).filter (fun owner => !owner.isDirectory) =
        (directory.ownFields compress).flatMap fun field => field.2.keyOwners := by
  rw [ownersInTurn, List.filter_cons_of_pos rfl, List.filter_cons_of_neg Bool.false_ne_true]
  constructor
  · rw [List.cons_inj_right, List.filter_eq_nil_iff]
    intro owner howner
    rw [isDirectory_of_mem_keyOwners howner]
    exact Bool.false_ne_true
  · refine List.filter_eq_self.2 fun owner howner => ?_
    rw [isDirectory_of_mem_keyOwners howner]
    rfl

namespace Tree

variable {one : Owner} {site list : Site}

/-- Directories are named in the same order. -/
theorem filter_ownersInTurn (config : Config) (tree : Tree) :
    (tree.ownersInTurn config).filter Owner.isDirectory =
      (tree.directories config).directories.map fun directory => .directory directory.site := by
  rw [ownersInTurn, List.filter_flatMap, List.map_eq_flatMap]
  simp only [(Directory.filter_ownersInTurn _ _).1]

theorem filter_ownersByPass (config : Config) (tree : Tree) :
    (tree.ownersByPass config).filter Owner.isDirectory =
      (tree.directories config).directories.map fun directory => .directory directory.site := by
  have hkeys : ((tree.directories config).directories.flatMap fun directory =>
      directory.fields.entries.flatMap fun field => field.2.keyOwners).filter
        Owner.isDirectory = [] := by
    refine List.filter_eq_nil_iff.2 fun owner howner => ?_
    obtain ⟨directory, _, hmem⟩ := List.mem_flatMap.1 howner
    rw [isDirectory_of_mem_keyOwners hmem]
    exact Bool.false_ne_true
  rw [ownersByPass, List.filter_append, hkeys, List.append_nil]
  refine List.filter_eq_self.2 fun owner howner => ?_
  obtain ⟨directory, _, rfl⟩ := List.mem_map.1 howner
  rfl

/-- Key wrappers are named in the same order, though there may be more of them before a run. -/
theorem sublist_keys (config : Config) (tree : Tree) :
    ((tree.ownersInTurn config).filter fun owner => !owner.isDirectory).Sublist
      ((tree.directories config).directories.flatMap fun directory =>
        directory.fields.entries.flatMap fun field => field.2.keyOwners) := by
  rw [ownersInTurn, List.filter_flatMap]
  refine List.Sublist.flatMap_right _ fun directory _ => ?_
  rw [(Directory.filter_ownersInTurn _ _).2]
  exact Directory.sublist_keyOwners _ _

theorem directory_mem_of_mem_ownersInTurn
    (h : Owner.directory site ∈ tree.ownersInTurn config) :
    Owner.directory site ∈
      (tree.directories config).directories.map fun directory => .directory directory.site := by
  rw [← filter_ownersInTurn]
  exact List.mem_filter.2 ⟨h, rfl⟩

theorem mem_ownersByPass {owner : Owner} (h : owner ∈ tree.ownersInTurn config) :
    owner ∈ tree.ownersByPass config := by
  cases owner with
  | directory site => exact List.mem_append_left _ (directory_mem_of_mem_ownersInTurn h)
  | keys list =>
      have hmem : .keys list ∈
          (tree.ownersInTurn config).filter fun owner => !owner.isDirectory :=
        List.mem_filter.2 ⟨h, rfl⟩
      exact List.mem_append_right _ ((sublist_keys config tree).subset hmem)

/-- What comes before a directory when names are given before a run comes before it on first use
too. -/
theorem pair_ownersInTurn (h : [one, .directory site].Sublist (tree.ownersByPass config)) :
    [one, .directory site].Sublist (tree.ownersInTurn config) := by
  have hfront := (pair_sublist_append_iff (not_mem_keyOwners _ site)).1 h
  rw [← filter_ownersInTurn] at hfront
  exact hfront.trans List.filter_sublist

/-- What comes before a key wrapper on first use comes before it when names are given before a
run. -/
theorem pair_ownersByPass (h : [one, .keys list].Sublist (tree.ownersInTurn config)) :
    [one, .keys list].Sublist (tree.ownersByPass config) := by
  have hkeys := h.filter fun owner => !owner.isDirectory
  have hlater := hkeys.trans (sublist_keys config tree)
  cases one with
  | directory site =>
      have hmem := directory_mem_of_mem_ownersInTurn (h.subset List.mem_cons_self)
      exact (List.singleton_sublist.2 hmem).append hlater
  | keys other => exact hlater.trans (List.sublist_append_right _ _)

end Tree

namespace Registry

variable {start late final : Registry}

/-- First use gives the names that were given before the other run, unless it gives a key wrapper
one that was given to another message. -/
theorem ComesFrom.place?_eq (hroot : tree.root.Distinct) (hslash : tree.SlashFree)
    (hlate : late.ComesFrom config tree (tree.ownersInTurn config))
    (hready : ready config (tree.directories config) = .ok start)
    (happart : ∀ list, .keys list ∈ tree.ownersInTurn config → ∀ place,
      late.place? config.compressPaths (.keys list) = some place →
      ∀ owner, tree.HasSite owner.site →
        start.place? config.compressPaths owner = some place → owner = .keys list) :
    late.packages = start.packages ∧ ∀ owner ∈ tree.ownersInTurn config,
      late.place? config.compressPaths owner = start.place? config.compressPaths owner := by
  have hscoped := (ready_of_ready_eq_ok hroot hslash hready).inScope
  obtain ⟨named, hnamed, rfl⟩ := exists_comesFrom_ready hroot hslash hready
  have hpackages := hnamed.packages_eq hlate
    ((Tree.filter_ownersByPass config tree).trans (Tree.filter_ownersInTurn config tree).symm)
  have hsites := hnamed.inTurn.sites
  refine ⟨hpackages, hnamed.inTurn.place?_eq hlate.inTurn hpackages
    (fun _ => Tree.mem_ownersByPass) (fun _ _ => Tree.pair_ownersInTurn)
    (fun _ _ => Tree.pair_ownersByPass) ?_ ?_⟩
  · exact fun one hone other hother place =>
      hscoped.injective (hsites one hone) (hsites other hother)
  · exact fun list hlist place hplace owner howner =>
      happart list hlist place hplace owner (hsites owner howner)

/-- A registry that has given names to the owners alone is kept by another one that has the same
packages, places and shared enums. -/
theorem ComesFrom.keptBy (h : late.ComesFrom config tree owners)
    (hpackages : late.packages.Included final.packages)
    (hplaces : ∀ owner ∈ owners, ∀ place,
      late.place? config.compressPaths owner = some place →
        final.place? config.compressPaths owner = some place)
    (henums : final.enumNames = late.enumNames) : late.KeptBy final := by
  have hnames : ∀ owner ∈ owners, ∀ name, late.name? owner = some name →
      final.name? owner = some name := by
    intro owner howner name hname
    obtain ⟨⟨package, found⟩, hplace⟩ := h.inTurn.exists_place? howner
    obtain rfl := Option.some.inj ((place?_eq_some_iff.1 hplace).2.symm.trans hname)
    exact (place?_eq_some_iff.1 (hplaces owner howner _ hplace)).2
  refine ⟨hpackages, fun path name hfound => ?_, fun path name hfound => ?_, henums ▸ .refl _⟩
  · obtain ⟨site, hmem, rfl⟩ := h.inTurn.messages hfound
    exact hnames _ hmem name hfound
  · obtain ⟨list, hmem, rfl⟩ := h.inTurn.keyMessages hfound
    exact hnames _ hmem name hfound

end Registry

/-!
## The same records
-/

namespace DirectorySet

variable {registry : Registry} {ledger : Ledger} {directory : Directory}
  {group other : MessageGroup}

/-- In one registry and with one ledger a directory gives one group. -/
theorem Gives.eq (h : set.Gives config registry directory group)
    (h' : set.Gives config registry directory other) (htags : set.Tags config ledger group)
    (htags' : set.Tags config ledger other) : other = group := by
  obtain ⟨hfound, hdraft, hlength, hpackage⟩ := h
  obtain ⟨hfound', hdraft', hlength', hpackage'⟩ := h'
  rename_i draft tags package found' draft' tags' package'
  obtain rfl := Option.some.inj (hfound.symm.trans hfound')
  obtain rfl := Option.some.inj (hpackage.symm.trans hpackage')
  obtain rfl := Except.ok.inj (Prod.mk.inj (hdraft.symm.trans hdraft')).1
  obtain ⟨directory, hfind, htagged⟩ := htags (draft.own tags) (by simp) rfl
  obtain ⟨directory', hfind', htagged'⟩ := htags' (draft.own tags') (by simp) rfl
  obtain rfl := Option.some.inj (hfind.symm.trans hfind')
  have hsome : tags.map some = tags'.map some := by
    have hown := (UntaggedField.map_zipWith_withTag hlength).2
    have hown' := (UntaggedField.map_zipWith_withTag hlength').2
    rw [← hown, ← hown', List.map_map, List.map_map]
    exact htagged.tags.trans htagged'.tags.symm
  rw [List.map_inj_right fun _ _ => Option.some.inj] at hsome
  rw [hsome]

theorem groups_eq {directories : List Directory} {groups others : List MessageGroup}
    (h : List.Forall₂ (set.Gives config registry) directories groups)
    (h' : List.Forall₂ (set.Gives config registry) directories others)
    (htags : ∀ group ∈ groups, set.Tags config ledger group)
    (htags' : ∀ group ∈ others, set.Tags config ledger group) : others = groups := by
  induction h generalizing others with
  | nil =>
      cases h'
      rfl
  | cons hfirst _ ih =>
      cases h' with
      | cons hfirst' hrest' =>
          obtain ⟨hgroup, hgroups⟩ := List.forall_mem_cons.1 htags
          obtain ⟨hother, hothers⟩ := List.forall_mem_cons.1 htags'
          rw [hfirst.eq hfirst' hgroup hother, ih hrest' hgroups hothers]

end DirectorySet

/-- No key wrapper of the records has a place that the registry has for another message. -/
def GeneratedRecords.WrappersApart (config : Config) (tree : Tree) (registry : Registry)
    (records : GeneratedRecords) : Prop :=
  ∀ list package message, records.Makes config tree (.keys list) package message →
    ∀ owner, tree.HasSite owner.site →
      registry.place? config.compressPaths owner = some (package, message.name) →
        owner = .keys list

namespace GeneratedRecords

variable {start : Registry} {records others : GeneratedRecords} {list : Site}
  {package : String} {message : Message}

/-- Where no name holds a slash, a message has the place that the registry has for its owner. -/
theorem NamedBy.place?_of_makes {registry : Registry} (hroot : tree.root.Distinct)
    (hslash : tree.SlashFree) (h : records.NamedBy config tree registry) {owner : Owner}
    (hmakes : records.Makes config tree owner package message) :
    registry.place? config.compressPaths owner = some (package, message.name) := by
  obtain ⟨hmade, hpackage⟩ := h.of_makes hmakes
  have hplaced := (List.of_mem_zip hmakes).2
  rw [h.package_eq hroot hslash _ hplaced] at hpackage
  exact Registry.place?_eq_some_iff.2 ⟨hpackage, hmade.name⟩

/-- The wrappers of a run stand where the registry that the run starts from has put them. -/
theorem wrappersApart_self (hroot : tree.root.Distinct) (hslash : tree.SlashFree)
    (hready : Registry.ready config (tree.directories config) = .ok start)
    {state ended : GenerationState} (hstate : state.registry = start)
    (hrun : (tree.directories config).records config state = (.ok records, ended)) :
    records.WrappersApart config tree start := by
  obtain ⟨hscoped, hplaced⟩ := Registry.ready_of_ready_eq_ok hroot hslash hready
  obtain ⟨hgrows, hnamed⟩ := Tree.namedBy_of_records
    (hstate ▸ Registry.enumsTraced_ready _ hready) hrun
  rw [hstate] at hgrows
  intro list package message hmakes owner howner hplace
  have hlist : Owner.keys list ∈ tree.owners config := by
    rw [← Tree.owners_directories hroot hslash]
    exact (List.of_mem_zip hmakes).1
  obtain ⟨place, hstart⟩ := hplaced _ hlist
  have hfinal := hgrows.keptBy.place? hstart
  rw [hnamed.place?_of_makes hroot hslash hmakes] at hfinal
  rw [← Option.some.inj hfinal] at hstart
  exact hscoped.injective howner (Tree.hasSite_of_mem_owners hlist) hplace hstart

/-- First use generates the same records if it keeps its wrappers apart. -/
theorem eq_of_wrappersApart (hroot : tree.root.Distinct) (hslash : tree.SlashFree)
    (hready : Registry.ready config (tree.directories config) = .ok start)
    {ledger : Ledger} {ended reached : GenerationState}
    (hrun : (tree.directories config).records config ⟨start, ledger⟩ = (.ok records, ended))
    (hrun' : (tree.directories config).records config ⟨Registry.cold config, ledger⟩ =
      (.ok others, reached))
    (hsame : others.enums = records.enums) (hledger : reached.ledger = ended.ledger)
    (henums : reached.registry.SameEnums ended.registry)
    (h : others.WrappersApart config tree start) : others = records := by
  have hlate := Tree.comesFrom_of_cold hroot hslash hrun'
  obtain ⟨hgrows, hnamed⟩ := Tree.namedBy_of_records (Registry.enumsTraced_ready _ hready) hrun
  obtain ⟨_, hnamed'⟩ := Tree.namedBy_of_records (Registry.enumsTraced_cold _ config) hrun'
  obtain ⟨hpackages, hplaces⟩ := hlate.place?_eq hroot hslash hready
    fun list hlist place hplace owner howner hown => by
      have hkeys : Owner.keys list ∈ (tree.directories config).owners config := by
        rw [Tree.owners_directories hroot hslash]
        exact (tree.perm_ownersInTurn config).mem_iff.2 hlist
      obtain ⟨package, message, hmakes⟩ := hnamed'.exists_makes hkeys
      rw [hnamed'.place?_of_makes hroot hslash hmakes] at hplace
      exact h list package message hmakes owner howner (hplace ▸ hown)
  have hkept : reached.registry.KeptBy ended.registry := by
    refine hlate.keptBy (hpackages ▸ hgrows.keptBy.packages) (fun owner howner place hplace => ?_)
      henums.names
    rw [hplaces owner howner] at hplace
    exact hgrows.keptBy.place? hplace
  obtain ⟨outcomes, hgroups, hgather, _⟩ := DirectorySet.of_records hrun
  obtain ⟨outcomes', hgroups', hgather', _⟩ := DirectorySet.of_records hrun'
  have htags := (DirectorySet.tagged_messageGroups hgroups hgather).1
  have htags' := (DirectorySet.tagged_messageGroups hgroups' hgather').1
  have hequal := DirectorySet.groups_eq hnamed.gives
    (DirectorySet.forall₂_gives hgroups' hgather' hkept) htags (hledger ▸ htags')
  cases records
  cases others
  exact congrArg₂ GeneratedRecords.mk hequal hsame

end GeneratedRecords

/-- A run that gives names on first use leaves the ledger of the usual run and has the same errors.
Where no name holds a slash, it generates the same exactly if none of its key wrappers has a place
that the usual run keeps for another message. -/
theorem Tree.first_use_agrees_iff {declared : Node} {tree : Tree}
    (htree : Tree.ofNode declared = .ok tree) {config : Config} {sources : Sources}
    {ledger later : Ledger} {outcome outcome' : Except GenerationErrors Output}
    {reached : GenerationState}
    (hrun : tree.generate config sources ledger = (outcome, later))
    (hrun' : (tree.directories config).output config sources ⟨Registry.cold config, ledger⟩ =
      (outcome', reached)) :
    reached.ledger = later ∧
    ((∃ errors, outcome = .error errors ∧ outcome' = .error errors) ∨
      ∃ start records others, Registry.ready config (tree.directories config) = .ok start ∧
        tree.generateRecords config ledger = (.ok records, later) ∧
        outcome = .ok (records.output config sources) ∧
        (tree.directories config).records config ⟨Registry.cold config, ledger⟩ =
          (.ok others, reached) ∧
        outcome' = .ok (others.output config sources) ∧
        (tree.SlashFree → (others = records ↔ others.WrappersApart config tree start))) := by
  obtain ⟨start, hready, hserves, henums⟩ :=
    Registry.exists_ready config (tree.directories config)
  have hstep : GenerationState.InStep (tree.directories config) ⟨start, ledger⟩
      ⟨Registry.cold config, ledger⟩ :=
    ⟨⟨⟨hserves, Registry.serves_cold config _⟩, henums.symm⟩, rfl⟩
  obtain ⟨halike, hafter⟩ := DirectorySet.lockstep_records hstep
  rw [Tree.generate, Tree.generateRecords, hready] at hrun
  rw [Tree.generateRecords, hready]
  rw [DirectorySet.output] at hrun'
  dsimp only at hrun hrun' ⊢
  cases hwarm : (tree.directories config).records config ⟨start, ledger⟩ with
  | mk early ended =>
      cases hcold : (tree.directories config).records config ⟨Registry.cold config, ledger⟩ with
      | mk late final =>
          rw [hwarm] at hrun halike hafter
          rw [hcold] at hrun' halike hafter
          cases hrun
          cases hrun'
          refine ⟨hafter.ledger.symm, ?_⟩
          cases halike with
          | error errors => exact Or.inl ⟨errors, rfl, rfl⟩
          | @ok records others hsame =>
              refine Or.inr ⟨start, records, others, rfl, rfl, rfl, rfl, rfl, fun hslash => ?_⟩
              have hroot := Tree.distinct_root htree
              constructor
              · rintro rfl
                exact GeneratedRecords.wrappersApart_self hroot hslash hready rfl hwarm
              · exact GeneratedRecords.eq_of_wrappersApart hroot hslash hready hwarm hcold
                  hsame.symm hafter.ledger.symm hafter.registry.enums.symm

theorem Tree.first_use_agrees_iff_keyed_list :
    let list := Node.list "entry" ["id"] [Node.leaf "id" .string]
    let declared := Node.module "m" [Node.container "a" [list]]
    let tree := Tree.copyOf declared
    Tree.ofNode declared = .ok tree ∧ tree.SlashFree ∧ ∃ later reached start records others,
      tree.generateRecords {} ∅ = (.ok records, later) ∧
      (tree.directories {}).records {} ⟨Registry.cold {}, ∅⟩ = (.ok others, reached) ∧
      reached.ledger = later ∧ Registry.ready {} (tree.directories {}) = .ok start ∧
      (others = records ↔ others.WrappersApart {} tree start) := by
  intro list declared tree
  have htree : Tree.ofNode declared = .ok tree :=
    Tree.ofNode_eq rfl (by decide +kernel)
  have hslash : tree.SlashFree := Tree.slashFree_of_sites (by decide +kernel)
  have hsome : (tree.generate {} {} ∅).1.toOption.isSome = true := by decide +kernel
  cases hrun : tree.generate {} {} ∅ with
  | mk outcome later =>
      cases hrun' : (tree.directories {}).output {} {} ⟨Registry.cold {}, ∅⟩ with
      | mk outcome' reached =>
          obtain ⟨hledger, ⟨errors, rfl, _⟩ | ⟨start, records, others, hready, hrecords, _,
            hothers, _, hiff⟩⟩ := Tree.first_use_agrees_iff htree hrun hrun'
          · rw [hrun] at hsome
            cases hsome
          · exact ⟨htree, hslash, later, reached, start, records, others, hrecords, hothers,
              hledger, hready, hiff hslash⟩

/-- On first use a key wrapper is called `EntryKey` before the message of `entry-key` is named. -/
theorem Tree.not_first_use_agrees :
    let list := Node.list "entry" ["id"] [Node.leaf "id" .string]
    let declared := Node.module "m"
      [Node.container "a" [list], Node.container "entry-key" [Node.leaf "x" .string]]
    let tree := Tree.copyOf declared
    Tree.ofNode declared = .ok tree ∧ ∃ output output',
      (tree.generate {} {} ∅).1 = .ok output ∧
      ((tree.directories {}).output {} {} ⟨Registry.cold {}, ∅⟩).1 = .ok output' ∧
      output' ≠ output := by
  intro list declared tree
  have hsome : (tree.generate {} {} ∅).1.toOption.isSome = true := by decide +kernel
  have hsome' : ((tree.directories {}).output {} {}
      ⟨Registry.cold {}, ∅⟩).1.toOption.isSome = true := by
    decide +kernel
  obtain ⟨output, hrun⟩ := exists_eq_ok_of_isSome hsome
  obtain ⟨output', hrun'⟩ := exists_eq_ok_of_isSome hsome'
  have hne : (tree.generate {} {} ∅).1.toOption ≠
      ((tree.directories {}).output {} {} ⟨Registry.cold {}, ∅⟩).1.toOption := by
    decide +kernel
  refine ⟨Tree.ofNode_eq rfl (by decide +kernel), output, output', hrun, hrun',
    fun hsame => hne ?_⟩
  rw [hrun, hrun', hsame]

end YangToProto

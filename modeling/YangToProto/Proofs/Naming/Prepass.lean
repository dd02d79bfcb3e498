import YangToProto.Proofs.Naming.InTurn

/-!
# Names given before a run

The registry that a run starts from names the messages of all directories, and after that the key
wrappers of all lists (`Tree.ownersByPass`). So it comes from the cold registry by naming these
owners in turn (`Registry.exists_comesFrom_ready`).
-/

namespace YangToProto

variable {config : Config} {tree : Tree} {owners : List Owner} {home field : Site}

/-- The field lies beside the key wrappers of a home. If it has a message, that has been named. -/
structure Tree.Holds (config : Config) (tree : Tree) (owners : List Owner) (home field : Site) :
    Prop where
  hasSite : tree.HasSite field
  holder : field.holder? config.compressPaths = some home
  named : field.kind.isDirectory = true → Owner.directory field ∈ owners

theorem Tree.Holds.mono (h : tree.Holds config owners home field) (more : List Owner) :
    tree.Holds config (owners ++ more) home field :=
  ⟨h.hasSite, h.holder, fun hkind => List.mem_append_left _ (h.named hkind)⟩

/-- The owners of the messages that are named before a run, in order. -/
def Tree.ownersByPass (config : Config) (tree : Tree) : List Owner :=
  ((tree.directories config).directories.map fun directory => Owner.directory directory.site) ++
    (tree.directories config).directories.flatMap fun directory =>
      directory.fields.entries.flatMap fun field => field.2.keyOwners

namespace Tree

theorem not_mem_keyOwners (directories : List Directory) (site : Site) :
    Owner.directory site ∉ directories.flatMap fun directory =>
      directory.fields.entries.flatMap fun field => field.2.keyOwners := by
  intro hmem
  obtain ⟨directory, _, hmem⟩ := List.mem_flatMap.1 hmem
  obtain ⟨field, _, hmem⟩ := List.mem_flatMap.1 hmem
  exact nomatch (Site.mem_keyOwners_iff.1 hmem).2

theorem nodup_ownersByPass (hroot : tree.root.Distinct) : (tree.ownersByPass config).Nodup := by
  have hsites : ((tree.directories config).directories.map Directory.site).Nodup :=
    DirectorySet.nodup_collect hroot
  refine List.nodup_append.2 ⟨?_, ?_, fun owner howner other hother heq => ?_⟩
  · have hmap := hsites.map fun _ _ => Owner.directory.inj
    rwa [List.map_map] at hmap
  · refine nodup_flatMap hroot (fun _ => Directory.nodup_keyOwners)
      fun site hmessage owner howner => ?_
    obtain ⟨⟨name, field⟩, hfield, hmem⟩ := List.mem_flatMap.1 howner
    rw [(Site.mem_keyOwners_iff.1 hmem).2]
    exact (Site.of_mem_fields hmessage hfield).2.2.2
  · obtain ⟨directory, _, rfl⟩ := List.mem_map.1 howner
    exact not_mem_keyOwners _ _ (heq ▸ hother)

end Tree

namespace Registry

variable {registry after : Registry} {package : String}

theorem not_mem_of_nodup_append {owner : Owner} {more : List Owner}
    (hnodup : (owners ++ owner :: more).Nodup) : owner ∉ owners := fun hmem =>
  (List.nodup_append.1 hnodup).2.2 owner hmem owner List.mem_cons_self rfl

theorem ComesFrom.nameMessages (hroot : tree.root.Distinct) (hslash : tree.SlashFree)
    (h : registry.ComesFrom config tree owners) {directories : List Directory}
    (hsites : ∀ directory ∈ directories, tree.HasSite directory.site)
    (hnodup : (owners ++ directories.map fun directory => Owner.directory directory.site).Nodup)
    (hrun : Registry.nameMessages config.compressPaths directories registry = (.ok (), after)) :
    after.ComesFrom config tree
      (owners ++ directories.map fun directory => Owner.directory directory.site) := by
  induction directories generalizing registry owners with
  | nil =>
      obtain ⟨_, rfl⟩ := pure_eq_ok hrun
      rwa [List.map_nil, List.append_nil]
  | cons directory rest ih =>
      obtain ⟨name, middle, hname, hrest⟩ := bind_eq_ok hrun
      have hmiddle := h.messageName hroot hslash (hsites directory List.mem_cons_self)
        (not_mem_of_nodup_append hnodup) hname
      rw [List.map_cons, List.append_cons] at hnodup ⊢
      exact ih hmiddle (fun other ho => hsites other (List.mem_cons_of_mem _ ho)) hnodup hrest

/-- The key wrapper of a list is named after the list, beside the message that holds it. -/
theorem ComesFrom.keyOwners (hroot : tree.root.Distinct) (hslash : tree.SlashFree)
    (h : registry.ComesFrom config tree owners) (hfield : tree.Holds config owners home field)
    (hpackage : registry.packages.find? (home.anchor config.compressPaths) = some package)
    (hkeyed : field.node.isKeyedList = true) (hnodup : (owners ++ field.keyOwners).Nodup)
    {listMessage name : String}
    (hmessage : registry.messages.find? field.pathText = some listMessage)
    (hrun : Registry.keyMessageName field listMessage package registry = (.ok name, after)) :
    after.ComesFrom config tree (owners ++ field.keyOwners) := by
  rw [Site.keyOwners, if_pos hkeyed] at hnodup ⊢
  exact h.keyMessageName hroot hslash hfield.hasSite (not_mem_of_nodup_append hnodup)
    (hfield.named (Node.isDirectory_of_isKeyedList hkeyed)) hmessage
    (Option.bind_eq_some_iff.2 ⟨home, hfield.holder, hpackage⟩) hrun

theorem ComesFrom.nameKeysOf (hroot : tree.root.Distinct) (hslash : tree.SlashFree)
    (h : registry.ComesFrom config tree owners) {fields : List Site}
    (hfields : ∀ field ∈ fields, tree.Holds config owners home field)
    (hpackage : registry.packages.find? (home.anchor config.compressPaths) = some package)
    (hnodup : (owners ++ fields.flatMap Site.keyOwners).Nodup)
    (hrun : Registry.nameKeysOf config.compressPaths package fields registry = (.ok (), after)) :
    after.ComesFrom config tree (owners ++ fields.flatMap Site.keyOwners) := by
  induction fields generalizing registry owners with
  | nil =>
      obtain ⟨_, rfl⟩ := pure_eq_ok hrun
      rwa [List.flatMap_nil, List.append_nil]
  | cons field rest ih =>
      have hfield := hfields field List.mem_cons_self
      have hothers := fun other ho => hfields other (List.mem_cons_of_mem field ho)
      rw [List.flatMap_cons, ← List.append_assoc] at hnodup ⊢
      rw [Registry.nameKeysOf] at hrun
      by_cases hkeyed : field.node.isKeyedList = true
      · rw [if_pos hkeyed] at hrun
        obtain ⟨listMessage, first, hlist, hrun⟩ := bind_eq_ok hrun
        obtain ⟨name, second, hname, hrest⟩ := bind_eq_ok hrun
        obtain ⟨_, own, _, hown⟩ :=
          h.place_again (hfield.named (Node.isDirectory_of_isKeyedList hkeyed))
        rw [messageName_of_find? hown] at hlist
        cases hlist
        have hsecond := h.keyOwners hroot hslash hfield hpackage hkeyed
          ((List.nodup_append.1 hnodup).1) hown hname
        have hkept := (keptBy_keyMessageName hname).1.packages _ _ hpackage
        exact ih hsecond (fun other ho => (hothers other ho).mono _) hkept hnodup hrest
      · rw [if_neg hkeyed] at hrun
        rw [Site.keyOwners, if_neg hkeyed, List.append_nil] at hnodup ⊢
        exact ih h hothers hpackage hnodup hrun

theorem ComesFrom.nameKeys (hroot : tree.root.Distinct) (hslash : tree.SlashFree)
    (h : registry.ComesFrom config tree owners) {directories : List Directory}
    (hdirectories : ∀ directory ∈ directories, .directory directory.site ∈ owners ∧
      ∀ field ∈ directory.fields.entries, tree.Holds config owners directory.site field.2)
    (hnodup : (owners ++ directories.flatMap fun directory =>
      directory.fields.entries.flatMap fun field => field.2.keyOwners).Nodup)
    (hrun : Registry.nameKeys config.compressPaths directories registry = (.ok (), after)) :
    after.ComesFrom config tree (owners ++ directories.flatMap fun directory =>
      directory.fields.entries.flatMap fun field => field.2.keyOwners) := by
  induction directories generalizing registry owners with
  | nil =>
      obtain ⟨_, rfl⟩ := pure_eq_ok hrun
      rwa [List.flatMap_nil, List.append_nil]
  | cons directory rest ih =>
      obtain ⟨howner, hfields⟩ := hdirectories directory List.mem_cons_self
      obtain ⟨package, first, hpackage, hrun⟩ := bind_eq_ok hrun
      obtain ⟨_, second, hkeys, hrest⟩ := bind_eq_ok hrun
      obtain ⟨own, _, hown, _⟩ := h.place_again howner
      have hsame := lift_state_eq_ok hpackage
      rw [packageFor_of_find? hown] at hsame
      cases hsame
      have hvalues : directory.fields.values.flatMap Site.keyOwners =
          directory.fields.entries.flatMap fun field => field.2.keyOwners :=
        List.flatMap_map _ _ _
      have hheld : ∀ field ∈ directory.fields.values,
          tree.Holds config owners directory.site field := List.forall_mem_map.2 hfields
      rw [List.flatMap_cons, ← List.append_assoc, ← hvalues] at hnodup ⊢
      have hsecond := h.nameKeysOf hroot hslash hheld hown (List.nodup_append.1 hnodup).1 hkeys
      refine ih hsecond (fun other ho => ?_) hnodup hrest
      obtain ⟨hother, hall⟩ := hdirectories other (List.mem_cons_of_mem _ ho)
      exact ⟨List.mem_append_left _ hother, fun field hfield => (hall field hfield).mono _⟩

end Registry

/-- A field of a directory has the directory as its home. If it has a message, that is one of the
directories. -/
theorem Tree.holds_of_field {directory : Directory}
    (hd : directory ∈ (tree.directories config).directories) {field : String × Site}
    (hfield : field ∈ directory.fields.entries)
    (hnamed : ∀ other ∈ (tree.directories config).directories, directory.site.Under other.site →
      other.site.holder? config.compressPaths = some directory.site →
      .directory other.site ∈ owners) :
    tree.Holds config owners directory.site field.2 := by
  obtain ⟨name, field⟩ := field
  obtain ⟨site, hsite, hmessage, rfl⟩ := DirectorySet.mem_collect_iff.1 hd
  obtain ⟨_, hunder, _, hholder⟩ := Site.of_mem_fields hmessage hfield
  refine ⟨hsite.trans hunder, hholder, fun hkind => ?_⟩
  exact hnamed _ (DirectorySet.mem_collect_of_field hd hfield hkind) hunder hholder

/-- The registry that a run starts from comes from naming all directories, then all key wrappers. -/
theorem Registry.exists_comesFrom_ready (hroot : tree.root.Distinct) (hslash : tree.SlashFree)
    {start : Registry} (h : ready config (tree.directories config) = .ok start) :
    ∃ named : Registry, named.ComesFrom config tree (tree.ownersByPass config) ∧
      start = { named with frozen := true } := by
  have hnodup : (tree.ownersByPass config).Nodup := Tree.nodup_ownersByPass hroot
  rw [ready, prepopulate] at h
  split at h
  · rename_i named hrun
    cases h
    obtain ⟨_, middle, hmessages, hkeys⟩ := bind_eq_ok hrun
    have hmiddle := (comesFrom_cold config tree).nameMessages hroot hslash
      (fun _ => DirectorySet.hasSite_of_mem_collect) (List.nodup_append.1 hnodup).1 hmessages
    refine ⟨named, hmiddle.nameKeys hroot hslash (fun directory hd => ?_) hnodup hkeys, rfl⟩
    exact ⟨List.mem_map_of_mem hd, fun field hfield => Tree.holds_of_field hd hfield
      fun other ho _ _ => List.mem_map_of_mem ho⟩
  · cases h

end YangToProto

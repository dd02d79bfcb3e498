import Mathlib.Data.List.Flatten
import YangToProto.Generation.Draft
import YangToProto.Generation.Run
import YangToProto.Proofs.Generation.Directories

/-!
# Owners of messages

What a run makes a message for is an `Owner`: a container or list, or the keys of a list. The owners
of a directory are the keyed lists among its own fields, for their key wrappers, and then the
directory itself. All owners of a tree are different (`Tree.nodup_owners`), because the home of an
owner tells its directory.
-/

namespace YangToProto

/-- What a message is made for: a container or list, or the keys of a list. -/
inductive Owner where
  | directory (site : Site)
  | keys (list : Site)

namespace Owner

def site : Owner → Site
  | directory site => site
  | keys list => list

/-- The site whose package the message stands in. A key wrapper stands beside the message that
holds its list. -/
def home? (compress : Bool) : Owner → Option Site
  | directory site => some site
  | keys list => list.holder? compress

end Owner

/-- The owners of the key wrappers that a field brings: a keyed list brings one. -/
def Site.keyOwners (field : Site) : List Owner :=
  if field.node.isKeyedList then [.keys field] else []

/-- The owners of the messages of a directory, key wrappers first. -/
def Directory.owners (compress : Bool) (directory : Directory) : List Owner :=
  (directory.ownFields compress).flatMap (fun field => field.2.keyOwners) ++
    [.directory directory.site]

def Tree.owners (config : Config) (tree : Tree) : List Owner :=
  (tree.directories config).directories.flatMap (Directory.owners config.compressPaths)

theorem Node.isDirectory_of_isKeyedList {node : Node} (h : node.isKeyedList = true) :
    node.kind.isDirectory = true := by
  rw [isKeyedList, Bool.and_eq_true, beq_iff_eq] at h
  rw [h.1]
  rfl

namespace Site

theorem mem_keyOwners_iff {field : Site} {owner : Owner} :
    owner ∈ field.keyOwners ↔ field.node.isKeyedList = true ∧ owner = .keys field := by
  rw [keyOwners]
  by_cases h : field.node.isKeyedList = true
  · simp [h]
  · simp [h]

theorem keyOwners_of_ne_list {field : Site} (h : field.kind ≠ .list) : field.keyOwners = [] := by
  have hkeyed : field.node.isKeyedList = false := by
    rw [Node.isKeyedList, Bool.and_eq_false_iff]
    exact Or.inl (beq_eq_false_iff_ne.2 h)
  rw [keyOwners, hkeyed]
  rfl

end Site

namespace Directory

variable {compress : Bool} {site : Site} {owner : Owner}

theorem mem_owners_iff {directory : Directory} :
    owner ∈ directory.owners compress ↔
      (∃ field ∈ directory.ownFields compress, field.2.node.isKeyedList = true ∧
        owner = .keys field.2) ∨ owner = .directory directory.site := by
  rw [owners, List.mem_append, List.mem_flatMap, List.mem_singleton]
  simp only [Site.mem_keyOwners_iff]

/-- Every message of a directory has the directory's site as its home. -/
theorem home?_of_mem_owners (hmessage : site.isMessage compress = true)
    (h : owner ∈ (ofSite compress site).owners compress) :
    owner.home? compress = some site ∧ site.Under owner.site := by
  rcases mem_owners_iff.1 h with ⟨field, hfield, _, rfl⟩ | rfl
  · obtain ⟨_, hunder, _, hholder⟩ := Site.of_mem_fields hmessage (List.mem_filter.1 hfield).1
    exact ⟨hholder, hunder⟩
  · exact ⟨rfl, Site.Under.self⟩

theorem nodup_keyOwners (hmessage : site.isMessage compress = true) :
    ((site.fields compress).entries.flatMap fun field => field.2.keyOwners).Nodup := by
  refine List.pairwise_flatMap.2 ⟨fun field _ => ?_, ?_⟩
  · rw [Site.keyOwners]
    split <;> simp
  · -- different fields have different names, and a field goes by its own name
    refine (site.fields compress).increasing.imp_of_mem ?_
    intro one other hone hother hlt owner howner owner' howner' heq
    obtain ⟨hname, _⟩ := Site.of_mem_fields hmessage hone
    obtain ⟨hname', _⟩ := Site.of_mem_fields hmessage hother
    rw [(Site.mem_keyOwners_iff.1 howner).2, (Site.mem_keyOwners_iff.1 howner').2,
      Owner.keys.injEq] at heq
    rw [← hname, ← hname', heq, Std.compare_self] at hlt
    cases hlt

theorem sublist_keyOwners (compress : Bool) (directory : Directory) :
    ((directory.ownFields compress).flatMap fun field => field.2.keyOwners).Sublist
      (directory.fields.entries.flatMap fun field => field.2.keyOwners) :=
  List.filter_sublist.flatMap _

theorem nodup_owners (hmessage : site.isMessage compress = true) :
    ((ofSite compress site).owners compress).Nodup := by
  have hkeys := (nodup_keyOwners hmessage).sublist
    (sublist_keyOwners compress (ofSite compress site))
  refine List.nodup_append.2 ⟨hkeys, by simp, fun owner howner own hown heq => ?_⟩
  obtain ⟨field, _, hkeys⟩ := List.mem_flatMap.1 howner
  have hsame := (Site.mem_keyOwners_iff.1 hkeys).2
  rw [heq, List.mem_singleton.1 hown] at hsame
  cases hsame

end Directory

namespace Tree

variable {config : Config} {tree : Tree}

theorem mem_owners_iff {owner : Owner} :
    owner ∈ tree.owners config ↔ ∃ directory ∈ (tree.directories config).directories,
      owner ∈ directory.owners config.compressPaths :=
  List.mem_flatMap

theorem hasSite_of_mem_owners {owner : Owner} (h : owner ∈ tree.owners config) :
    tree.HasSite owner.site := by
  obtain ⟨directory, hd, howner⟩ := mem_owners_iff.1 h
  obtain ⟨site, hsite, hmessage, rfl⟩ := DirectorySet.mem_collect_iff.1 hd
  exact hsite.trans (Directory.home?_of_mem_owners hmessage howner).2

/-- Messages that stand beside different directories are different. -/
theorem nodup_flatMap (hroot : tree.root.Distinct) {owners : Directory → List Owner}
    (hnodup : ∀ site, site.isMessage config.compressPaths = true →
      (owners (Directory.ofSite config.compressPaths site)).Nodup)
    (hhome : ∀ site, site.isMessage config.compressPaths = true →
      ∀ owner ∈ owners (Directory.ofSite config.compressPaths site),
        owner.home? config.compressPaths = some site) :
    ((tree.directories config).directories.flatMap owners).Nodup := by
  refine List.pairwise_flatMap.2 ⟨fun directory hd => ?_, ?_⟩
  · obtain ⟨site, _, hmessage, rfl⟩ := DirectorySet.mem_collect_iff.1 hd
    exact hnodup site hmessage
  · have hsites : ((tree.directories config).directories.map Directory.site).Nodup :=
      DirectorySet.nodup_collect hroot
    refine (List.pairwise_map.1 hsites).imp_of_mem
      fun hone hother hne owner howner owner' howner' heq => hne ?_
    obtain ⟨site, _, hmessage, rfl⟩ := DirectorySet.mem_collect_iff.1 hone
    obtain ⟨site', _, hmessage', rfl⟩ := DirectorySet.mem_collect_iff.1 hother
    have hsame := hhome site hmessage owner howner
    rw [heq, hhome site' hmessage' owner' howner'] at hsame
    exact (Option.some.inj hsame).symm

theorem nodup_owners (hroot : tree.root.Distinct) : (tree.owners config).Nodup :=
  nodup_flatMap hroot (fun _ => Directory.nodup_owners) fun _ hmessage _ howner =>
    (Directory.home?_of_mem_owners hmessage howner).1

end Tree

end YangToProto

import YangToProto.Proofs.Generation.Directories
import YangToProto.Proofs.Schema.Numbering
import YangToProto.Proofs.Text.Segments

/-!
# Looking nodes up by the texts of their paths

The text of a path is split at its slashes after those in front of it have been dropped. This gives
the path back unless a name holds a slash or the first of several names is empty
(`pieces_pathText_eq_iff`). So a node is found by its path text exactly where this does not occur on
its path (`Tree.find?_pathText_iff`), and all nodes of a tree are found exactly if it does not occur
at all (`Tree.foundByText_iff`).
-/

namespace YangToProto

/-- The text of a path is a slash and the names with slashes between them. -/
theorem toList_pathText (path : List String) :
    (pathText path).toList = '/' :: Segments.join '/' (path.map String.toList) := by
  simp [pathText, Segments.toString]

/-- Nothing is dropped from joined names unless the first one is empty and others follow. -/
theorem dropWhile_join_eq_iff {name : String} {rest : List String} (h : '/' ∉ name.toList) :
    (Segments.join '/' ((name :: rest).map String.toList)).dropWhile (· == '/') =
        Segments.join '/' ((name :: rest).map String.toList) ↔
      name ≠ "" ∨ rest = [] := by
  cases hname : name.toList with
  | nil =>
      have hempty : name = "" := String.toList_inj.1 hname
      cases rest with
      | nil => simp [Segments.join, hempty]
      | cons next more =>
          have hjoin : Segments.join '/' ((name :: next :: more).map String.toList) =
              '/' :: Segments.join '/' ((next :: more).map String.toList) := by
            simp [Segments.join, hempty]
          rw [hjoin, List.dropWhile_cons_of_pos (by simp)]
          refine ⟨fun heq => ?_, by simp [hempty]⟩
          have hlength := (List.dropWhile_suffix (· == '/')
            (l := Segments.join '/' ((next :: more).map String.toList))).length_le
          rw [heq, List.length_cons] at hlength
          omega
  | cons c chars =>
      have hne : name ≠ "" := fun heq => by simp [heq] at hname
      have hc : c ≠ '/' := fun heq => h (by rw [hname, heq]; exact List.mem_cons_self)
      have hjoin : ∃ more, Segments.join '/' ((name :: rest).map String.toList) = c :: more := by
        cases rest <;> simp [Segments.join, hname]
      obtain ⟨more, hjoin⟩ := hjoin
      rw [hjoin, List.dropWhile_cons_of_neg (by simpa using hc)]
      simp [hne]

/-- Which paths come back from their texts. -/
theorem pieces_pathText_eq_iff (name : String) (rest : List String) :
    Segments.ofString '/' (String.ofList
        ((pathText (name :: rest)).toList.dropWhile (· == '/'))) = name :: rest ↔
      (∀ other ∈ name :: rest, '/' ∉ other.toList) ∧ (name ≠ "" ∨ rest = []) := by
  have hpieces : Segments.ofString '/' (String.ofList
        ((pathText (name :: rest)).toList.dropWhile (· == '/'))) = name :: rest ↔
      Segments.split '/' ((Segments.join '/' ((name :: rest).map String.toList)).dropWhile
        (· == '/')) = (name :: rest).map String.toList := by
    rw [toList_pathText, List.dropWhile_cons_of_pos (by simp), Segments.ofString,
      String.toList_ofList,
      ← List.map_inj_right (f := String.toList) fun _ _ => String.toList_inj.1]
    simp [Function.comp_def]
  rw [hpieces]
  constructor
  · intro hsplit
    have hslash : ∀ other ∈ name :: rest, '/' ∉ other.toList := fun other ho =>
      Segments.sep_notMem_split _ (hsplit ▸ List.mem_map_of_mem ho)
    have hjoin := Segments.join_split '/' ((Segments.join '/'
      ((name :: rest).map String.toList)).dropWhile (· == '/'))
    rw [hsplit] at hjoin
    exact ⟨hslash, (dropWhile_join_eq_iff (hslash name List.mem_cons_self)).1 hjoin.symm⟩
  · rintro ⟨hslash, hfirst⟩
    rw [(dropWhile_join_eq_iff (hslash name List.mem_cons_self)).2 hfirst]
    refine Segments.split_join (by simp) fun piece hpiece => ?_
    obtain ⟨other, ho, rfl⟩ := List.mem_map.1 hpiece
    exact hslash other ho

namespace Tree

variable {declared : Node} {tree : Tree}

theorem find?_eq_some_iff (ht : ofNode declared = .ok tree) {text : String} {number : Nat} :
    tree.find? text = some number ↔ ∃ site, tree.site? number = some site ∧
      site.path = Segments.ofString '/' (String.ofList (text.toList.dropWhile (· == '/'))) :=
  numberAt?_eq_some_iff ht

/-- Paths start with the name of the module, and nothing follows in the path of the module. -/
theorem HasSite.path_eq_cons (ht : ofNode declared = .ok tree) {site : Site}
    (h : tree.HasSite site) :
    ∃ rest, site.path = tree.root.name :: rest ∧ (rest = [] ↔ site = tree.rootSite) := by
  obtain ⟨rest, hrest⟩ := h.path_prefix
  refine ⟨rest, hrest.symm, ?_⟩
  constructor
  · rintro rfl
    exact eq_of_path_eq (distinct_root ht) h .self ((List.append_nil _).symm.trans hrest).symm
  · rintro rfl
    exact List.append_right_eq_self.1 hrest

/-- A node is found by its path text exactly if no name on its path holds a slash and, unless it is
the module itself, the name of the module is not empty. -/
theorem find?_pathText_iff (ht : ofNode declared = .ok tree) {number : Nat} {site : Site}
    (h : tree.site? number = some site) :
    tree.find? site.pathText = some number ↔
      (∀ name ∈ site.path, '/' ∉ name.toList) ∧
        (tree.root.name ≠ "" ∨ site = tree.rootSite) := by
  obtain ⟨rest, hpath, hroot⟩ := (HasSite.of_site? ht h).path_eq_cons ht
  rw [find?_eq_some_iff ht, Site.pathText, ← hroot, hpath, ← pieces_pathText_eq_iff]
  constructor
  · rintro ⟨found, hfound, hpieces⟩
    cases Option.some.inj (h.symm.trans hfound)
    exact hpieces.symm.trans hpath
  · intro hpieces
    exact ⟨site, h, hpath.trans hpieces.symm⟩

/-- Looking up the path text of a node gives the number of the node. -/
def FoundByText (tree : Tree) : Prop :=
  ∀ number site, tree.site? number = some site → tree.find? site.pathText = some number

/-- All nodes are found by their path texts exactly if no name holds a slash and no node stands
below a module with an empty name. -/
theorem foundByText_iff (ht : ofNode declared = .ok tree) :
    tree.FoundByText ↔ tree.SlashFree ∧ (tree.root.name ≠ "" ∨ tree.root.children = []) := by
  constructor
  · intro h
    have hfound : ∀ site, tree.HasSite site → (∀ name ∈ site.path, '/' ∉ name.toList) ∧
        (tree.root.name ≠ "" ∨ site = tree.rootSite) := fun site hsite => by
      obtain ⟨number, hnumber⟩ := exists_number? ht hsite
      exact (find?_pathText_iff ht hnumber).1 (h number site hnumber)
    refine ⟨fun site hsite => (hfound site hsite).1 site.name (by simp [Site.path, Site.name]), ?_⟩
    cases hchildren : tree.root.children with
    | nil => exact Or.inr rfl
    | cons child rest =>
        have hchild : tree.HasSite (tree.rootSite.below child) :=
          Site.Under.self.step (hchildren ▸ List.mem_cons_self)
        exact Or.inl ((hfound _ hchild).2.resolve_right fun heq => by
          simp [rootSite, Site.below] at heq)
  · rintro ⟨hslash, hname⟩ number site hnumber
    have hsite := HasSite.of_site? ht hnumber
    have hmodule : tree.root.name ≠ "" ∨ site = tree.rootSite := by
      refine hname.imp_right fun hnil => ?_
      rcases hsite.eq_or_child with rfl | ⟨child, hc, _⟩
      · rfl
      · exact absurd hc (by simp [rootSite, hnil])
    exact (find?_pathText_iff ht hnumber).2 ⟨hsite.slash_notin_path hslash, hmodule⟩

/-- Path texts identify the nodes of a tree where no name holds a slash: each text belongs to one
node, and the directory with the path text of a directory is that directory. That each node is also
found by its path text takes in addition that nothing stands below a module with an empty name, and
holds in no other tree. -/
theorem path_texts_identify (ht : ofNode declared = .ok tree) :
    (tree.FoundByText ↔
      tree.SlashFree ∧ (tree.root.name ≠ "" ∨ tree.root.children = [])) ∧
    (tree.SlashFree →
      (∀ number other site site', tree.site? number = some site → tree.site? other = some site' →
        site.pathText = site'.pathText → number = other) ∧
      ∀ compress, ∀ directory ∈ (DirectorySet.collect tree compress).directories,
        (DirectorySet.collect tree compress).find? directory.path = some directory) := by
  have hroot := distinct_root ht
  refine ⟨foundByText_iff ht, fun hslash => ⟨fun number other site site' hsite hsite' htext => ?_,
    fun compress directory hd => DirectorySet.find?_collect hroot hslash hd⟩⟩
  cases eq_of_pathText_eq hroot hslash (HasSite.of_site? ht hsite) (HasSite.of_site? ht hsite')
    htext
  exact site?_injective ht hsite hsite'

theorem path_texts_identify_two_levels :
    let declared := Node.module "m" [Node.container "a" [Node.container "b" []]]
    ∃ tree, ofNode declared = .ok tree ∧ tree.SlashFree ∧ tree.FoundByText ∧
      ∀ compress, ∀ directory ∈ (DirectorySet.collect tree compress).directories,
        (DirectorySet.collect tree compress).find? directory.path = some directory := by
  intro declared
  have htree : ofNode declared = .ok (copyOf declared) := ofNode_eq rfl (by decide +kernel)
  obtain ⟨hfound, hidentify⟩ := path_texts_identify htree
  have hslash : SlashFree (copyOf declared) := slashFree_of_sites (by decide +kernel)
  exact ⟨_, htree, hslash, hfound.2 ⟨hslash, Or.inl (by decide)⟩, (hidentify hslash).2⟩

/-- A name with a slash makes a path text ambiguous: the look-up of one node gives another one, and
so does the look-up of a directory. Below a module with an empty name nothing is found. -/
theorem not_path_texts_identify :
    let declared := Node.module "m" [Node.container "a" [Node.container "b" []],
      Node.container "a/b" [Node.leaf "x" .string]]
    let nameless := Node.module "" [Node.container "c" []]
    (∃ tree one other, ofNode declared = .ok tree ∧ tree.site? 2 = some one ∧
      tree.site? 3 = some other ∧ one.pathText = other.pathText ∧
      tree.find? other.pathText = some 2 ∧
      Directory.ofSite false one ∈ (DirectorySet.collect tree false).directories ∧
      (DirectorySet.collect tree false).find? one.pathText ≠
        some (Directory.ofSite false one)) ∧
    ∃ tree site, ofNode nameless = .ok tree ∧ tree.site? 1 = some site ∧
      tree.find? site.pathText = none := by
  intro declared nameless
  have htree : ofNode declared = .ok (copyOf declared) := ofNode_eq rfl (by decide +kernel)
  have hnameless : ofNode nameless = .ok (copyOf nameless) := ofNode_eq rfl (by decide +kernel)
  have hone : (copyOf declared).site? 2 = some ⟨Node.container "b" [],
      [Node.container "a" [Node.container "b" []], declared]⟩ := site?_eq htree 2
  have hother : (copyOf declared).site? 3 = some ⟨Node.container "a/b" [Node.leaf "x" .string],
      [declared]⟩ := site?_eq htree 3
  have hsilent : (copyOf nameless).site? 1 = some ⟨Node.container "c" [], [nameless]⟩ :=
    site?_eq hnameless 1
  refine ⟨⟨_, _, _, htree, hone, hother, by decide +kernel, by decide +kernel,
    DirectorySet.mem_collect_iff.2 ⟨_, HasSite.of_site? htree hone, by decide +kernel, rfl⟩,
    fun heq => ?_⟩, _, _, hnameless, hsilent, by decide +kernel⟩
  have hname := congrArg (Option.map fun found => found.site.name) heq
  revert hname
  decide +kernel

end Tree

end YangToProto

import YangToProto.Proofs.Schema.NameOrder
import YangToProto.Schema.Tree

/-!
# The sites of a tree

`Site.Under top site` says that the site is reached from `top` by going to children. `Node.sites`
lists these sites, a node before its children. Where no two siblings have one name, a site is
determined by its path (`Tree.eq_of_path_eq`), which leads down to it (`Tree.siteAt?_eq_some_iff`),
and by the text of its path as long as no name holds a slash (`Tree.eq_of_pathText_eq`).
-/

namespace YangToProto

theorem pathText_injective {path other : List String} (hne : path ≠ []) (hne' : other ≠ [])
    (hslash : ∀ name ∈ path, '/' ∉ name.toList) (hslash' : ∀ name ∈ other, '/' ∉ name.toList)
    (h : pathText path = pathText other) : path = other := by
  have hjoin := String.ofList_injective ((String.append_right_inj "/").1 h)
  have hsplit := congrArg (Segments.split '/') hjoin
  rw [Segments.split_join, Segments.split_join] at hsplit
  · exact (List.map_inj_right fun _ _ => String.toList_injective).1 hsplit
  all_goals simp_all

namespace Site

/-- The sites at and below `top`. -/
inductive Under (top : Site) : Site → Prop where
  | self : Under top top
  | step {site : Site} {child : Node} (h : Under top site) (hc : child ∈ site.node.children) :
      Under top (site.below child)

theorem mem_children_iff {site child : Site} :
    child ∈ site.children ↔ ∃ node ∈ site.node.children, child = site.below node := by
  rw [children, List.mem_map]
  simp only [Node.mem_sortedChildren, eq_comm]

theorem path_ne_nil (site : Site) : site.path ≠ [] := by
  simp [path]

@[simp] theorem path_below (site : Site) (child : Node) :
    (site.below child).path = site.path ++ [child.name] := by
  simp [path, below]

theorem path_of_parent? {site parent : Site} (h : site.parent? = some parent) :
    site.path = parent.path ++ [site.name] := by
  obtain ⟨node, ancestors⟩ := site
  cases ancestors with
  | nil => simp [parent?] at h
  | cons above rest =>
      cases h
      simp [path, name]

namespace Under

variable {top middle site : Site}

theorem trans (h : Under top middle) (h' : Under middle site) : Under top site := by
  induction h' with
  | self => exact h
  | step _ hc ih => exact ih.step hc

theorem path_prefix (h : Under top site) : top.path <+: site.path := by
  induction h with
  | self => exact List.prefix_refl _
  | step _ _ ih =>
      rw [path_below]
      exact ih.trans (List.prefix_append _ _)

theorem distinct (h : Under top site) (ht : top.node.Distinct) : site.node.Distinct := by
  induction h with
  | self => exact ht
  | step _ hc ih => exact ih.child hc

theorem of_child {child : Node} (hc : child ∈ top.node.children)
    (h : Under (top.below child) site) : Under top site :=
  (self.step hc).trans h

/-- A site below another one is that one or lies at or below one of its children. -/
theorem eq_or_child (h : Under top site) :
    site = top ∨ ∃ child ∈ top.node.children, Under (top.below child) site := by
  induction h with
  | self => exact Or.inl rfl
  | step _ hc ih =>
      rcases ih with rfl | ⟨child, hchild, hunder⟩
      · exact Or.inr ⟨_, hc, self⟩
      · exact Or.inr ⟨child, hchild, hunder.step hc⟩

end Under

/-- Two siblings at or above one path have one name. -/
theorem name_eq_of_paths_above {ancestors : List Node} {one other : Node} {path : List String}
    (h : (⟨one, ancestors⟩ : Site).path <+: path) (h' : (⟨other, ancestors⟩ : Site).path <+: path) :
    one.name = other.name := by
  have hlength : (⟨one, ancestors⟩ : Site).path.length =
      (⟨other, ancestors⟩ : Site).path.length := by simp [Site.path]
  obtain ⟨rest, hrest⟩ := h
  obtain ⟨rest', hrest'⟩ := h'
  obtain ⟨hpath, _⟩ := List.append_inj (hrest.trans hrest'.symm) hlength
  simpa [Site.path] using hpath

end Site

/-!
## The list of all sites
-/

namespace Node

mutual

/-- The sites at and below a node: a node before its children, and these in the order in which it
lists them. -/
def sites (ancestors : List Node) : Node → List Site
  | ⟨name, kind, key, type, children⟩ =>
    let node : Node := ⟨name, kind, key, type, children⟩
    ⟨node, ancestors⟩ :: sitesAll (node :: ancestors) children

def sitesAll (ancestors : List Node) : List Node → List Site
  | [] => []
  | node :: rest => sites ancestors node ++ sitesAll ancestors rest

end

mutual

theorem mem_sites_iff (node : Node) {ancestors : List Node} {site : Site} :
    site ∈ node.sites ancestors ↔ Site.Under ⟨node, ancestors⟩ site := by
  obtain ⟨name, kind, key, type, children⟩ := node
  rw [sites, List.mem_cons, mem_sitesAll_iff children]
  constructor
  · rintro (rfl | ⟨child, hc, hunder⟩)
    · exact .self
    · exact .of_child hc hunder
  · exact Site.Under.eq_or_child
termination_by structural node

theorem mem_sitesAll_iff (nodes : List Node) {ancestors : List Node} {site : Site} :
    site ∈ sitesAll ancestors nodes ↔ ∃ node ∈ nodes, Site.Under ⟨node, ancestors⟩ site := by
  cases nodes with
  | nil => simp [sitesAll]
  | cons node rest =>
      rw [sitesAll, List.mem_append, mem_sites_iff node, mem_sitesAll_iff rest]
      simp
termination_by structural nodes

end

end Node

/-!
## Following a path
-/

namespace Site

/-- Following names downwards leads to the site whose path they complete. -/
theorem descend?_eq_some_iff {top site : Site} (h : top.node.Distinct) {names : List String} :
    top.descend? names = some site ↔ Under top site ∧ site.path = top.path ++ names := by
  induction names generalizing top with
  | nil =>
      rw [descend?, Option.some.injEq, List.append_nil]
      refine ⟨fun heq => heq ▸ ⟨.self, rfl⟩, fun ⟨hunder, hpath⟩ => ?_⟩
      rcases hunder.eq_or_child with rfl | ⟨child, _, hbelow⟩
      · rfl
      · have hlength := hbelow.path_prefix.length_le
        rw [path_below, hpath, List.length_append, List.length_singleton] at hlength
        omega
  | cons name rest ih =>
      rw [descend?, Option.bind_eq_some_iff]
      constructor
      · rintro ⟨_, hchild, hrest⟩
        obtain ⟨child, hnode, rfl⟩ := Option.map_eq_some_iff.1 hchild
        obtain ⟨hc, rfl⟩ := (Node.child?_eq_some_iff h).1 hnode
        have hchild : (top.below child).node.Distinct := h.child hc
        obtain ⟨hunder, hpath⟩ := (ih hchild).1 hrest
        exact ⟨hunder.of_child hc, by rw [hpath, path_below, List.append_assoc]; rfl⟩
      · rintro ⟨hunder, hpath⟩
        rcases hunder.eq_or_child with rfl | ⟨child, hc, hbelow⟩
        · simp at hpath
        · obtain ⟨more, hmore⟩ := hbelow.path_prefix
          rw [hpath, path_below, List.append_assoc, List.append_cancel_left_eq,
            List.singleton_append, List.cons.injEq] at hmore
          obtain ⟨hname, _⟩ := hmore
          have hnode := (Node.child?_eq_some_iff h).2 ⟨hc, hname⟩
          have hchild : (top.below child).node.Distinct := h.child hc
          exact ⟨top.below child, by rw [child?, hnode]; rfl, (ih hchild).2
            ⟨hbelow, by rw [hpath, path_below, hname, List.append_assoc]; rfl⟩⟩

end Site

namespace Tree

/-- The site belongs to the tree. -/
def HasSite (tree : Tree) (site : Site) : Prop := tree.rootSite.Under site

/-- No name of the tree holds the character that separates the names of a path. -/
def SlashFree (tree : Tree) : Prop := ∀ site, tree.HasSite site → '/' ∉ site.name.toList

variable {tree : Tree}

theorem slashFree_of_sites (h : ∀ site ∈ tree.root.sites [], '/' ∉ site.name.toList) :
    tree.SlashFree :=
  fun site hsite => h site ((Node.mem_sites_iff tree.root).2 hsite)

/-- The names from the root downwards lead to the one site that has them as its path. -/
theorem siteAt?_eq_some_iff (hroot : tree.root.Distinct) {path : List String} {site : Site} :
    tree.siteAt? path = some site ↔ tree.HasSite site ∧ site.path = path := by
  cases path with
  | nil => exact ⟨fun h => by simp [siteAt?] at h, fun h => absurd h.2 site.path_ne_nil⟩
  | cons name rest =>
      have hpathRoot : tree.rootSite.path = [tree.root.name] := rfl
      rw [siteAt?]
      split
      · rename_i hname
        rw [beq_iff_eq] at hname
        rw [Site.descend?_eq_some_iff hroot, hpathRoot, hname]
        rfl
      · rename_i hname
        refine ⟨fun h => by simp at h, fun ⟨hsite, hpath⟩ => absurd ?_ hname⟩
        have hstart := hsite.path_prefix
        rw [hpathRoot, hpath, List.singleton_prefix_cons_iff] at hstart
        simp [hstart]

theorem HasSite.slash_notin_path (hslash : tree.SlashFree) {site : Site} (h : tree.HasSite site) :
    ∀ name ∈ site.path, '/' ∉ name.toList := by
  intro name hname
  induction h with
  | self =>
      have hroot : name = tree.rootSite.name := by
        simpa [Site.path, rootSite, Site.name] using hname
      exact hroot ▸ hslash tree.rootSite Site.Under.self
  | @step parent child hp hc ih =>
      rw [Site.path_below, List.mem_append, List.mem_singleton] at hname
      rcases hname with hname | rfl
      · exact ih hname
      · exact hslash (parent.below child) (hp.step hc)

/-- Where siblings have different names a path belongs to one site. -/
theorem eq_of_path_eq (hroot : tree.root.Distinct) {site other : Site} (h : tree.HasSite site)
    (h' : tree.HasSite other) (hpath : site.path = other.path) : site = other := by
  induction h generalizing other with
  | self =>
      cases h' with
      | self => rfl
      | @step parent child _ _ =>
          have hlength := congrArg List.length hpath
          have hpos := List.length_pos_iff.2 parent.path_ne_nil
          simp [Site.path, rootSite, Site.below] at hlength
  | @step parent child hp hc ih =>
      cases h' with
      | self =>
          have hlength := congrArg List.length hpath
          simp [Site.path, rootSite, Site.below] at hlength
      | @step parent' child' hp' hc' =>
          rw [Site.path_below, Site.path_below] at hpath
          obtain ⟨hparent, hname⟩ := List.append_inj' hpath rfl
          cases ih hp' hparent
          have hlevel := (hp.distinct hroot).names
          cases eq_of_name_eq hlevel hc hc' (List.singleton_inj.1 hname)
          rfl

/-- Without slashes in names the text of a path belongs to one site. -/
theorem eq_of_pathText_eq (hroot : tree.root.Distinct) (hslash : tree.SlashFree)
    {site other : Site} (h : tree.HasSite site) (h' : tree.HasSite other)
    (htext : site.pathText = other.pathText) : site = other :=
  eq_of_path_eq hroot h h' <| pathText_injective site.path_ne_nil other.path_ne_nil
    (h.slash_notin_path hslash) (h'.slash_notin_path hslash) htext

end Tree

end YangToProto

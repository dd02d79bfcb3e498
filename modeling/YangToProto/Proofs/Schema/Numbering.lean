import YangToProto.Proofs.Schema.Arena

/-!
# The numbers of nodes

The nodes in the arena of a tree are copies of the declared sites, in declared order
(`Tree.arena_eq`), so a number stands for one site (`Tree.site?_eq`) and following child maps
through the arena is following names through the declaration (`Tree.numberAt?_eq_some_iff`). A
declaration is made into a tree just when nothing is wrong with any of its nodes by itself, and then
the arena agrees with it in all it says (`Tree.numbered_as_declared`).
-/

namespace YangToProto

theorem lookup_map_eq {α β : Type} (name : α → String) (value : α → β) (items : List α)
    (wanted : String) :
    (items.map fun item => (name item, value item)).lookup wanted =
      (items.find? fun item => name item == wanted).map value := by
  induction items with
  | nil => rfl
  | cons item rest ih =>
      rw [List.map_cons, List.lookup_cons, List.find?_cons, ih, Bool.beq_comm]
      cases name item == wanted <;> rfl

namespace Site

/-- Below a node without ancestors, parents are met on the way down. -/
theorem Under.parent {root : Node} {site parent : Site} (h : Under ⟨root, []⟩ site)
    (hparent : site.parent? = some parent) :
    Under ⟨root, []⟩ parent ∧ site.node ∈ parent.node.children := by
  cases h with
  | self => simp [parent?] at hparent
  | step hp hc =>
      cases hparent
      exact ⟨hp, hc⟩

theorem Under.eq_of_parent? {root : Node} {site : Site} (h : Under ⟨root, []⟩ site)
    (hparent : site.parent? = none) : site = ⟨root, []⟩ := by
  cases h with
  | self => rfl
  | step => cases hparent

theorem eq_below_of_parent? {site parent : Site} (h : site.parent? = some parent) :
    site = parent.below site.node := by
  obtain ⟨node, ancestors⟩ := site
  cases ancestors with
  | nil => simp [parent?] at h
  | cons above rest =>
      cases h
      rfl

end Site

namespace Tree

variable {declared : Node} {tree : Tree} {number : Nat} {site : Site}

/-- The sites of a tree are the declared ones. -/
theorem hasSite_iff (ht : ofNode declared = .ok tree) :
    tree.HasSite site ↔ site ∈ declared.sites [] := by
  rw [Node.mem_sites_iff, HasSite, rootSite, root_eq ht]

/-!
## Numbers and sites
-/

/-- The number of a site is its position in the declaration. -/
theorem site?_eq (ht : ofNode declared = .ok tree) (number : Nat) :
    tree.site? number = (declared.sites [])[number]? := by
  rw [site?, getElem?_arena ht]
  cases hplace : (declared.sites [])[number]? with
  | none => rfl
  | some place =>
      have hsite := (hasSite_iff ht).2 (List.mem_of_getElem? hplace)
      exact (siteAt?_eq_some_iff (distinct_root ht)).2 ⟨hsite, rfl⟩

theorem HasSite.of_site? (ht : ofNode declared = .ok tree) (h : tree.site? number = some site) :
    tree.HasSite site := by
  rw [site?_eq ht] at h
  exact (hasSite_iff ht).2 (List.mem_of_getElem? h)

theorem numbering_eq_iff (ht : ofNode declared = .ok tree) (hsite : tree.HasSite site) :
    declared.numbering site.path = number ↔ tree.site? number = some site := by
  rw [site?_eq ht, Node.numbering_eq_iff (acceptable_of_ofNode ht) ((hasSite_iff ht).1 hsite)]

theorem site?_injective (ht : ofNode declared = .ok tree) {other : Nat}
    (h : tree.site? number = some site) (h' : tree.site? other = some site) : number = other := by
  have hsite := HasSite.of_site? ht h
  exact ((numbering_eq_iff ht hsite).2 h).symm.trans ((numbering_eq_iff ht hsite).2 h')

/-- Every site of the tree has a number. -/
theorem exists_number? (ht : ofNode declared = .ok tree) (hsite : tree.HasSite site) :
    ∃ number, tree.site? number = some site :=
  ⟨_, (numbering_eq_iff ht hsite).1 rfl⟩

theorem site?_zero (ht : ofNode declared = .ok tree) : tree.site? 0 = some ⟨declared, []⟩ := by
  rw [site?_eq ht]
  cases declared
  rfl

theorem child?_eq (ht : ofNode declared = .ok tree) (h : tree.site? number = some site)
    (name : String) :
    tree.arena.child? number name =
      (site.child? name).map fun child => declared.numbering child.path := by
  rw [site?_eq ht] at h
  rw [Arena.child?, getElem?_arena ht, h, Option.map_some, Option.bind_some, ArenaNode.ofSite,
    lookup_map_eq, Site.child?, Node.child?, Option.map_map]
  exact Option.map_congr fun child _ => by rw [Function.comp, Site.path_below]

/-- Following child maps downwards is following names. -/
theorem foldlM_child?_eq (ht : ofNode declared = .ok tree) (h : tree.site? number = some site)
    (names : List String) :
    names.foldlM tree.arena.child? number =
      (site.descend? names).map fun found => declared.numbering found.path := by
  have hsite := HasSite.of_site? ht h
  induction names generalizing number site with
  | nil => exact congrArg some ((numbering_eq_iff ht hsite).2 h).symm
  | cons name rest ih =>
      rw [List.foldlM_cons, child?_eq ht h, Site.descend?]
      cases hchild : site.child? name with
      | none => rfl
      | some child =>
          obtain ⟨node, hnode, rfl⟩ := Option.map_eq_some_iff.1 hchild
          have hbelow : tree.HasSite (site.below node) :=
            hsite.step (List.mem_of_find?_eq_some hnode)
          exact ih ((numbering_eq_iff ht hbelow).1 rfl) hbelow

/-- The number at the end of a path is that of the site there. -/
theorem numberAt?_eq_some_iff (ht : ofNode declared = .ok tree) {path : List String} :
    tree.numberAt? path = some number ↔
      ∃ site, tree.site? number = some site ∧ site.path = path := by
  have hmap : tree.numberAt? path =
      (tree.siteAt? path).map fun found => declared.numbering found.path := by
    cases path with
    | nil => rfl
    | cons name rest =>
        rw [numberAt?, siteAt?, rootSite, root_eq ht, foldlM_child?_eq ht (site?_zero ht)]
        split <;> rfl
  rw [hmap, Option.map_eq_some_iff]
  constructor
  · rintro ⟨site, hsite, hnumber⟩
    obtain ⟨hhas, hpath⟩ := (siteAt?_eq_some_iff (distinct_root ht)).1 hsite
    exact ⟨site, (numbering_eq_iff ht hhas).1 hnumber, hpath⟩
  · rintro ⟨site, hsite, hpath⟩
    have hhas := HasSite.of_site? ht hsite
    exact ⟨site, (siteAt?_eq_some_iff (distinct_root ht)).2 ⟨hhas, hpath⟩,
      (numbering_eq_iff ht hhas).2 hsite⟩

/-!
## The arena as a copy of the declaration
-/

/-- The node of a number is the one declared at a site, linked as it is declared: parents have
smaller numbers, and the children are those of which this one is the parent. -/
structure Copies (tree : Tree) (declared : Node) (number : Nat) (place : Site)
    (node : ArenaNode) : Prop where
  name : node.name = place.name
  kind : node.kind = place.kind
  key : node.key = place.node.key
  type : node.type = place.node.type
  path : node.path = place.path
  no_parent : node.parent = none ↔ number = 0
  parent : ∀ above, node.parent = some above →
    above < number ∧ (declared.sites [])[above]? = place.parent?
  names : node.children.map Prod.fst = place.node.children.map Node.name
  children : ∀ name child, tree.arena.child? number name = some child ↔
    ∃ other, tree.arena[child]? = some other ∧ other.parent = some number ∧ other.name = name

/-- A parent is numbered before its children. -/
theorem lt_of_parent? (ht : ofNode declared = .ok tree) {above : Nat} {parent : Site}
    (h : tree.site? number = some site) (h' : tree.site? above = some parent)
    (hparent : site.parent? = some parent) : above < number := by
  rw [site?_eq ht] at h h'
  obtain ⟨hlt, rfl⟩ := List.getElem?_eq_some_iff.1 h
  obtain ⟨hlt', rfl⟩ := List.getElem?_eq_some_iff.1 h'
  have hpath := Site.path_of_parent? hparent
  rcases Nat.lt_trichotomy above number with hbefore | rfl | hafter
  · exact hbefore
  · simp at hpath
  · have hpairwise := Node.pairwise_sites declared (acceptable_of_ofNode ht)
    refine absurd ?_ (List.pairwise_iff_getElem.1 hpairwise _ _ hlt hlt' hafter)
    exact hpath ▸ List.prefix_append _ _

/-- The links downwards are the links upwards turned round. -/
theorem child?_eq_some_iff (ht : ofNode declared = .ok tree) (h : tree.site? number = some site)
    {name : String} {child : Nat} :
    tree.arena.child? number name = some child ↔
      ∃ other, tree.arena[child]? = some other ∧ other.parent = some number ∧
        other.name = name := by
  have hsite := HasSite.of_site? ht h
  have hnode := hsite.distinct (distinct_root ht)
  rw [child?_eq ht h, getElem?_arena ht, ← site?_eq ht, Option.map_eq_some_iff]
  constructor
  · rintro ⟨below, hbelow, hchild⟩
    obtain ⟨node, hfound, rfl⟩ := Option.map_eq_some_iff.1 hbelow
    obtain ⟨hc, hname⟩ := (Node.child?_eq_some_iff hnode).1 hfound
    rw [(numbering_eq_iff ht (hsite.step hc)).1 hchild]
    exact ⟨_, rfl, congrArg some ((numbering_eq_iff ht hsite).2 h), hname⟩
  · rintro ⟨other, hother, hparent, hname⟩
    obtain ⟨below, hbelow, rfl⟩ := Option.map_eq_some_iff.1 hother
    obtain ⟨above, habove, hnumber⟩ := Option.map_eq_some_iff.1 hparent
    have hhas := HasSite.of_site? ht hbelow
    obtain ⟨hunder, hc⟩ := Site.Under.parent hhas habove
    cases Option.some.inj (h.symm.trans ((numbering_eq_iff ht hunder).1 hnumber))
    have hfound := (Node.child?_eq_some_iff hnode).2 ⟨hc, hname⟩
    refine ⟨site.below below.node, congrArg (Option.map site.below) hfound, ?_⟩
    rw [← Site.eq_below_of_parent? habove]
    exact (numbering_eq_iff ht hhas).2 hbelow

theorem copies_of_declared (ht : ofNode declared = .ok tree) {place : Site}
    (hplace : (declared.sites [])[number]? = some place) :
    tree.Copies declared number place (ArenaNode.ofSite declared.numbering place) := by
  have hsite : tree.site? number = some place := (site?_eq ht number).trans hplace
  have hhas := HasSite.of_site? ht hsite
  exact
    { name := rfl
      kind := rfl
      key := rfl
      type := rfl
      path := rfl
      no_parent := by
        rw [ArenaNode.ofSite, Option.map_eq_none_iff]
        constructor
        · intro hnone
          have hroot : place = ⟨tree.root, []⟩ := Site.Under.eq_of_parent? hhas hnone
          rw [hroot, root_eq ht] at hsite
          exact site?_injective ht hsite (site?_zero ht)
        · rintro rfl
          cases hsite.symm.trans (site?_zero ht)
          rfl
      parent := fun above habove => by
        obtain ⟨parent, hparent, hnumber⟩ := Option.map_eq_some_iff.1 habove
        have hfound := (numbering_eq_iff ht (Site.Under.parent hhas hparent).1).1 hnumber
        exact ⟨lt_of_parent? ht hsite hfound hparent,
          ((site?_eq ht above).symm.trans hfound).trans hparent.symm⟩
      names := by
        rw [ArenaNode.ofSite, List.map_map]
        rfl
      children := fun name child => child?_eq_some_iff ht hsite }

/-- A declared module is made into a tree exactly if its leaves have types and no two siblings have
one name, and then its arena is a copy of the declaration: one node for each declared one, numbered
in declared order, a node before its children. -/
theorem numbered_as_declared (declared : Node) :
    ((∃ tree, ofNode declared = .ok tree) ↔
      declared.kind = .module ∧ ∀ place ∈ declared.sites [], place.node.Acceptable) ∧
    ∀ tree, ofNode declared = .ok tree →
      tree.root = declared ∧ tree.arena.size = (declared.sites []).length ∧
      ∀ number place, (declared.sites [])[number]? = some place →
        ∃ node, tree.arena[number]? = some node ∧ tree.Copies declared number place node := by
  refine ⟨exists_ofNode_iff, fun tree ht => ⟨root_eq ht, ?_, fun number place hplace => ?_⟩⟩
  · rw [arena_eq ht, List.size_toArray, List.length_map]
  · refine ⟨_, ?_, copies_of_declared ht hplace⟩
    rw [getElem?_arena ht, hplace, Option.map_some]

theorem numbered_as_declared_two_levels :
    let leaf := Node.leaf "id" .string
    let users := Node.list "users" ["id"] [leaf]
    let top := Node.container "top" [Node.leaf "b" .string, Node.leaf "a" .boolean]
    let declared := Node.module "m" [users, top]
    ∃ tree, ofNode declared = .ok tree ∧ tree.arena.size = 6 ∧
      (∃ node, tree.arena[1]? = some node ∧ tree.Copies declared 1 ⟨users, [declared]⟩ node) ∧
      (∃ node, tree.arena[2]? = some node ∧
        tree.Copies declared 2 ⟨leaf, [users, declared]⟩ node) ∧
      ∃ node, tree.arena[3]? = some node ∧ tree.Copies declared 3 ⟨top, [declared]⟩ node := by
  intro leaf users top declared
  obtain ⟨haccepted, hcopy⟩ := numbered_as_declared declared
  obtain ⟨tree, ht⟩ := haccepted.2 ⟨rfl, by decide +kernel⟩
  obtain ⟨_, hsize, hcopies⟩ := hcopy tree ht
  exact ⟨tree, ht, hsize, hcopies 1 _ rfl, hcopies 2 _ rfl, hcopies 3 _ rfl⟩

end Tree

end YangToProto

import YangToProto.Proofs.Generation.ListKeys

/-!
# What is hoisted first

Where fields of one name meet in a directory, the first one in rank counts, and in one rank the one
from the child that comes first in name order (`Site.exists_first_child`). A list that an elided
container surrounds has the rank of a child that stays. So a child that stays takes precedence over
everything hoisted, and `config` over `state`, except where a container that surrounds a list of the
same name comes first (`DirectorySet.precedence_iff`).
-/

namespace YangToProto

/-- In a list with an order the first element of a `flatMap` comes from the first one that has
any. -/
theorem exists_first_of_find?_flatMap {α β : Type} {R : α → α → Prop} {l : List α}
    (hl : l.Pairwise R) {f : α → List β} {p : β → Bool} {x : β}
    (h : (l.flatMap f).find? p = some x) :
    ∃ a ∈ l, x ∈ f a ∧ p x = true ∧ ∀ b ∈ l, (∃ y ∈ f b, p y = true) → b = a ∨ R a b := by
  induction l with
  | nil => cases h
  | cons a rest ih =>
      obtain ⟨hfirst, hrest⟩ := List.pairwise_cons.1 hl
      rw [List.flatMap_cons, List.find?_append] at h
      cases hfind : (f a).find? p with
      | some y =>
          rw [hfind] at h
          cases h
          refine ⟨a, List.mem_cons_self, List.mem_of_find?_eq_some hfind, List.find?_some hfind,
            fun b hb _ => (List.mem_cons.1 hb).imp_right fun hb => hfirst b hb⟩
      | none =>
          rw [hfind, Option.none_or] at h
          obtain ⟨c, hc, hx, hpx, hmin⟩ := ih hrest h
          refine ⟨c, List.mem_cons_of_mem _ hc, hx, hpx, fun b hb hy => ?_⟩
          rcases List.mem_cons.1 hb with rfl | hb
          · obtain ⟨y, hy, hpy⟩ := hy
            exact absurd hpy (List.find?_eq_none.1 hfind y hy)
          · exact hmin b hb hy

namespace Site

variable {compress : Bool}

/-!
## What a child offers
-/

/-- What a site contributes, everything that it leads to contributes to. -/
theorem Through.expand_subset {top site : Site} (h : Through compress top site) :
    ∀ field ∈ expand compress site.ancestors site.node,
      field ∈ expand compress top.ancestors top.node := by
  induction h with
  | self => exact fun _ hmem => hmem
  | @step parent child _ helided hc ih =>
      intro field hmem
      refine ih field ?_
      rw [expand_of_isElided parent helided]
      exact List.mem_flatMap.2 ⟨_, mem_children_iff.2 ⟨child, hc, rfl⟩, hmem⟩

/-- What a site contributes are the sites that stay among those it leads to. -/
theorem mem_expand_iff {site field : Site} :
    field ∈ expand compress site.ancestors site.node ↔
      Through compress site field ∧ field.isElided compress = false := by
  refine ⟨through_of_mem_expand site.node, fun ⟨hthrough, hkept⟩ => ?_⟩
  refine hthrough.expand_subset field ?_
  rw [expand_of_not_isElided field hkept]
  exact List.mem_cons_self

/-- Going through elided levels the site leads to one of the given name that stays. -/
def Offers (compress : Bool) (site : Site) (name : String) : Prop :=
  ∃ field, Through compress site field ∧ field.isElided compress = false ∧ field.name = name

theorem offers_iff {site : Site} {name : String} :
    site.Offers compress name ↔
      ∃ field ∈ expand compress site.ancestors site.node, field.name = name := by
  simp only [Offers, mem_expand_iff, and_assoc]

/-- The site is elided, and its only child is a list of the given name. -/
def Surrounds (compress : Bool) (site : Site) (name : String) : Prop :=
  site.isElided compress = true ∧
    ∃ list, site.node.children = [list] ∧ list.kind = .list ∧ list.name = name

theorem surroundsList_iff {site : Site} :
    site.surroundsList = true ↔ ∃ list, site.node.children = [list] ∧ list.kind = .list := by
  rw [surroundsList]
  split
  · rename_i child hchildren
    simp [hchildren]
  · rename_i hnot
    simp only [Bool.false_eq_true, false_iff]
    rintro ⟨list, hchildren, _⟩
    exact hnot list hchildren

/-- An elided site around a list leads to that list and to nothing else. -/
theorem surrounds_iff_offers {site : Site} {name : String}
    (helided : site.isElided compress = true) (hsurrounds : site.surroundsList = true) :
    site.Surrounds compress name ↔ site.Offers compress name := by
  obtain ⟨list, hchildren, hlist⟩ := surroundsList_iff.1 hsurrounds
  have hkept : (site.below list).isElided compress = false := by
    simp [isElided, below, kind, hlist]
  have hexpand : expand compress site.ancestors site.node = [site.below list] := by
    have hsites : site.children = [site.below list] := by
      rw [children, Node.sortedChildren, hchildren]
      rfl
    rw [expand_of_isElided site helided, hsites, List.flatMap_singleton,
      expand_of_not_isElided _ hkept]
  rw [offers_iff, hexpand]
  simp [Surrounds, helided, hchildren, hlist, below, Site.name]

theorem Surrounds.surroundsList {site : Site} {name : String}
    (h : site.Surrounds compress name) : site.surroundsList = true := by
  obtain ⟨_, list, hchildren, hlist, _⟩ := h
  exact surroundsList_iff.2 ⟨list, hchildren, hlist⟩

theorem Surrounds.offers {site : Site} {name : String} (h : site.Surrounds compress name) :
    site.Offers compress name :=
  (surrounds_iff_offers h.1 h.surroundsList).1 h

theorem name_eq_of_offers {site : Site} {name : String} (hkept : site.isElided compress = false)
    (h : site.Offers compress name) : site.name = name := by
  obtain ⟨field, hfield, hname⟩ := offers_iff.1 h
  rw [expand_of_not_isElided site hkept, List.mem_singleton] at hfield
  rw [← hfield, hname]

theorem offers_name {site : Site} (hkept : site.isElided compress = false) :
    site.Offers compress site.name :=
  ⟨site, .self, hkept, rfl⟩

/-!
## Ranks
-/

theorem rank_of_not_isElided {site : Site} (h : site.isElided compress = false) :
    site.rank compress = 0 := by
  simp [rank, h]

theorem Surrounds.rank {site : Site} {name : String} (h : site.Surrounds compress name) :
    site.rank compress = 0 := by
  simp [Site.rank, h.surroundsList]

/-- In the first rank are children that stay and surrounding containers. -/
theorem surrounds_of_rank_eq_zero {site : Site} {name : String}
    (helided : site.isElided compress = true) (hrank : site.rank compress = 0)
    (hoffers : site.Offers compress name) : site.Surrounds compress name := by
  refine (surrounds_iff_offers helided ?_).2 hoffers
  by_contra hnot
  rw [Site.rank, helided] at hrank
  split at hrank
  · rename_i h
    simp [hnot] at h
  · split at hrank <;> cases hrank

/-- The order in which the children of a site contribute fields. -/
def Before (compress : Bool) (one other : Site) : Prop :=
  one.rank compress < other.rank compress ∨
    (one.rank compress = other.rank compress ∧ compare one.name other.name = .lt)

/-- The children of a site in the order in which they contribute fields. -/
def inOrder (compress : Bool) (site : Site) : List Site :=
  [0, 1, 2].flatMap fun rank => site.children.filter fun child => child.rank compress == rank

theorem mem_inOrder_iff {site child : Site} :
    child ∈ site.inOrder compress ↔ child ∈ site.children := by
  simp only [inOrder, List.mem_flatMap, List.mem_filter, beq_iff_eq]
  exact ⟨fun ⟨_, _, hchild, _⟩ => hchild,
    fun hchild => ⟨_, child.rank_mem compress, hchild, rfl⟩⟩

theorem pairwise_inOrder {site : Site} (hsite : site.node.Distinct) :
    (site.inOrder compress).Pairwise (Before compress) := by
  have hchildren := pairwise_children _ hsite
  refine List.pairwise_flatMap.2 ⟨fun rank _ => ?_, ?_⟩
  · refine (hchildren.filter _).imp_of_mem fun hone hother hlt => Or.inr ⟨?_, hlt⟩
    rw [eq_of_beq (List.mem_filter.1 hone).2, eq_of_beq (List.mem_filter.1 hother).2]
  · have hranks : [0, 1, 2].Pairwise fun one other : Nat => one < other := by decide
    refine hranks.imp fun hlt one hone other hother => Or.inl ?_
    rwa [eq_of_beq (List.mem_filter.1 hone).2, eq_of_beq (List.mem_filter.1 hother).2]

theorem candidates_eq (site : Site) :
    site.candidates compress =
      (site.inOrder compress).flatMap fun child => expand compress child.ancestors child.node :=
  List.flatMap_assoc.symm

/-- The field of some name comes from the first child in order that offers the name. -/
theorem exists_first_child {site field : Site} {name : String}
    (hsite : site.node.Distinct)
    (h : (site.fields compress).find? name = some field) :
    ∃ child ∈ site.children, child.Under field ∧ child.Offers compress name ∧
      (child.isElided compress = false → field = child) ∧
      ∀ other ∈ site.children, other.Offers compress name →
        other = child ∨ child.Before compress other := by
  rw [find?_fields, candidates_eq] at h
  obtain ⟨child, hchild, hfield, hname, hfirst⟩ :=
    exists_first_of_find?_flatMap (pairwise_inOrder hsite) h
  refine ⟨child, mem_inOrder_iff.1 hchild, (mem_expand_iff.1 hfield).1.under,
    offers_iff.2 ⟨field, hfield, eq_of_beq hname⟩, fun hkept => ?_, fun other ho hoffers => ?_⟩
  · rw [expand_of_not_isElided child hkept] at hfield
    exact List.mem_singleton.1 hfield
  · obtain ⟨field', hfield', hname'⟩ := offers_iff.1 hoffers
    exact hfirst other (mem_inOrder_iff.2 ho) ⟨field', hfield', by simp [hname']⟩

/-- A name that some child offers is the name of a field. -/
theorem exists_find?_fields {site child : Site} {name : String} (hc : child ∈ site.children)
    (h : child.Offers compress name) :
    ∃ field, (site.fields compress).find? name = some field := by
  obtain ⟨field, hfield, hname⟩ := offers_iff.1 h
  rw [find?_fields, ← Option.isSome_iff_exists, List.find?_isSome, candidates_eq]
  exact ⟨field, List.mem_flatMap.2 ⟨child, mem_inOrder_iff.2 hc, hfield⟩, by simp [hname]⟩

/-- Children of one name are one child. -/
theorem eq_of_mem_children {site one other : Site} (hsite : site.node.Distinct)
    (hone : one ∈ site.children) (hother : other ∈ site.children) (hname : one.name = other.name) :
    one = other := by
  obtain ⟨node, hnode, rfl⟩ := mem_children_iff.1 hone
  obtain ⟨node', hnode', rfl⟩ := mem_children_iff.1 hother
  rw [eq_of_name_eq hsite.names hnode hnode' hname]

/-- What lies below two children lies below one. -/
theorem eq_of_under_children {site one other field : Site}
    (hsite : site.node.Distinct) (hone : one ∈ site.children)
    (hother : other ∈ site.children) (h : one.Under field) (h' : other.Under field) :
    one = other := by
  refine eq_of_mem_children hsite hone hother ?_
  obtain ⟨node, _, rfl⟩ := List.mem_map.1 hone
  obtain ⟨node', _, rfl⟩ := List.mem_map.1 hother
  exact name_eq_of_paths_above h.path_prefix h'.path_prefix

/-!
## Precedence
-/

/-- The child of the given name is one that stays. -/
structure KeptChild (compress : Bool) (site : Site) (name : String) (child : Site) : Prop where
  mem : child ∈ site.children
  name_eq : child.name = name
  kept : child.isElided compress = false

/-- The child of the given name is an elided one. -/
structure ElidedChild (compress : Bool) (site : Site) (name : String) (child : Site) : Prop where
  mem : child ∈ site.children
  name_eq : child.name = name
  elided : child.isElided compress = true

/-- Some child whose name comes before `limit` surrounds a list of the given name. -/
def SurroundsBefore (compress : Bool) (site : Site) (name limit : String) : Prop :=
  ∃ child ∈ site.children, child.Surrounds compress name ∧ compare child.name limit = .lt

theorem not_before_of_surrounds {site other : Site} {name : String}
    (h : site.Surrounds compress name) (hlt : compare site.name other.name = .lt) :
    ¬ other.Before compress site := by
  rintro (hrank | ⟨_, hlt'⟩)
  · rw [h.rank] at hrank
    exact absurd hrank (Nat.not_lt_zero _)
  · rw [Std.OrientedCmp.gt_of_lt hlt] at hlt'
    cases hlt'

/-- What comes before a child of the first rank and is elided is a surrounding container. -/
theorem surroundsBefore_of_before {site child other : Site} {name : String}
    (hc : child ∈ site.children) (helided : child.isElided compress = true)
    (hoffers : child.Offers compress name) (hrank : other.rank compress = 0)
    (hbefore : child.Before compress other) :
    site.SurroundsBefore compress name other.name := by
  rw [Before, hrank] at hbefore
  obtain ⟨hzero, hlt⟩ := hbefore.resolve_left (Nat.not_lt_zero _)
  exact ⟨child, hc, surrounds_of_rank_eq_zero helided hzero hoffers, hlt⟩

/-- A child that stays is the field of its name unless a surrounding container takes the name
before it. -/
theorem find?_fields_eq_child_iff {site child : Site} {name : String}
    (hsite : site.node.Distinct) (h : site.KeptChild compress name child) :
    (site.fields compress).find? name = some child ↔
      ¬ site.SurroundsBefore compress name name := by
  obtain ⟨hchild, rfl, hkept⟩ := h
  constructor
  · rintro hfind ⟨other, hother, hsurrounds, hlt⟩
    obtain ⟨first, hmem, hunder, _, _, hfirst⟩ := exists_first_child hsite hfind
    obtain rfl : first = child := eq_of_under_children hsite hmem hchild hunder .self
    rcases hfirst other hother hsurrounds.offers with rfl | hbefore
    · exact absurd (hkept.symm.trans hsurrounds.1) (by decide)
    · exact not_before_of_surrounds hsurrounds hlt hbefore
  · intro hnot
    obtain ⟨field, hfind⟩ := exists_find?_fields hchild (offers_name hkept)
    obtain ⟨first, hmem, _, hoffers, hown, hfirst⟩ := exists_first_child hsite hfind
    have hfirstKept : first.isElided compress = false := by
      by_contra helided
      rw [Bool.not_eq_false] at helided
      rcases hfirst child hchild (offers_name hkept) with rfl | hbefore
      · exact absurd (hkept.symm.trans helided) (by decide)
      · exact hnot (surroundsBefore_of_before hmem helided hoffers
          (rank_of_not_isElided hkept) hbefore)
    have hsame := eq_of_mem_children hsite hmem hchild (name_eq_of_offers hfirstKept hoffers)
    rw [hfind, hown hfirstKept, hsame]

/-- Where no child of the name stays and `config` leads to the name, the field is not below `state`
unless `state` surrounds a list of the name and no other surrounding container comes before it. -/
theorem find?_fields_not_under_state_iff {site config : Site} {name : String}
    (hsite : site.node.Distinct)
    (hnone : ∀ child, ¬ site.KeptChild compress name child)
    (hconfig : site.ElidedChild compress "config" config)
    (hoffers : config.Offers compress name) :
    (∃ field, (site.fields compress).find? name = some field ∧
      ∀ state, site.ElidedChild compress "state" state → ¬ state.Under field) ↔
    ∀ state, site.ElidedChild compress "state" state → state.Surrounds compress name →
      site.SurroundsBefore compress name "state" := by
  constructor
  · rintro ⟨field, hfind, hnot⟩ state hstate hsurrounds
    obtain ⟨first, hmem, hunder, hfirstOffers, _, hfirst⟩ := exists_first_child hsite hfind
    rcases hfirst state hstate.mem hsurrounds.offers with rfl | hbefore
    · exact absurd hunder (hnot _ hstate)
    · have helided : first.isElided compress = true := by
        by_contra hkept
        rw [Bool.not_eq_true] at hkept
        exact hnone first ⟨hmem, name_eq_of_offers hkept hfirstOffers, hkept⟩
      rw [← hstate.name_eq]
      exact surroundsBefore_of_before hmem helided hfirstOffers hsurrounds.rank hbefore
  · intro h
    obtain ⟨field, hfind⟩ := exists_find?_fields hconfig.mem hoffers
    obtain ⟨first, hmem, hunder, hfirstOffers, _, hfirst⟩ := exists_first_child hsite hfind
    refine ⟨field, hfind, fun state hstate hbelow => ?_⟩
    obtain rfl := eq_of_under_children hsite hmem hstate.mem hunder hbelow
    have hrank : first.rank compress = 0 := by
      have hle : config.rank compress ≤ 1 := by
        simp only [Site.rank, hconfig.name_eq]
        split <;> simp
      rcases hfirst config hconfig.mem hoffers with rfl | hlt | ⟨_, hlt⟩
      · exact absurd (hconfig.name_eq.symm.trans hstate.name_eq) (by decide)
      · omega
      · rw [hconfig.name_eq, hstate.name_eq] at hlt
        exact absurd hlt (by decide)
    -- at this rank `state` surrounds the list, so another surrounding container comes before it
    obtain ⟨other, hother, hsurrounds, hlt⟩ :=
      h first hstate (surrounds_of_rank_eq_zero hstate.elided hrank hfirstOffers)
    rw [← hstate.name_eq] at hlt
    rcases hfirst other hother hsurrounds.offers with rfl | hbefore
    · simp at hlt
    · exact not_before_of_surrounds hsurrounds hlt hbefore

end Site

/-- A child of the name that stays is the field. Where there is none and an elided `config` leads to
the name, the field does not lie below an elided `state`. -/
structure Directory.Precedence (compress : Bool) (directory : Directory) (name : String) :
    Prop where
  direct : ∀ child, directory.site.KeptChild compress name child →
    directory.fields.find? name = some child
  config : (∀ child, ¬ directory.site.KeptChild compress name child) →
    ∀ config, directory.site.ElidedChild compress "config" config →
    config.Offers compress name →
    ∃ field, directory.fields.find? name = some field ∧
      ∀ state, directory.site.ElidedChild compress "state" state → ¬ state.Under field

namespace DirectorySet

/-- Children that stay come first and `config` comes before `state`, exactly if no container around
a list of the same name is in the way: none whose name comes before the one of the child that stays,
and not `state` itself, unless one before it has the list. -/
theorem precedence_iff {declared : Node} {tree : Tree} (htree : Tree.ofNode declared = .ok tree)
    {compress : Bool} {directory : Directory}
    (hd : directory ∈ (collect tree compress).directories) (name : String) :
    directory.Precedence compress name ↔
      (∀ child, directory.site.KeptChild compress name child →
        ¬ directory.site.SurroundsBefore compress name name) ∧
      ((∀ child, ¬ directory.site.KeptChild compress name child) →
        ∀ config, directory.site.ElidedChild compress "config" config →
        config.Offers compress name →
        ∀ state, directory.site.ElidedChild compress "state" state →
        state.Surrounds compress name →
        directory.site.SurroundsBefore compress name "state") := by
  obtain ⟨site, hsite, _, rfl⟩ := mem_collect_iff.1 hd
  have hdistinct := hsite.distinct (Tree.distinct_root htree)
  constructor
  · rintro ⟨hdirect, hconfig⟩
    exact ⟨fun child hchild =>
        (Site.find?_fields_eq_child_iff hdistinct hchild).1 (hdirect child hchild),
      fun hnone config hc hoffers =>
        (Site.find?_fields_not_under_state_iff hdistinct hnone hc hoffers).1
          (hconfig hnone config hc hoffers)⟩
  · rintro ⟨hdirect, hconfig⟩
    exact ⟨fun child hchild =>
        (Site.find?_fields_eq_child_iff hdistinct hchild).2 (hdirect child hchild),
      fun hnone config hc hoffers =>
        (Site.find?_fields_not_under_state_iff hdistinct hnone hc hoffers).2
          (hconfig hnone config hc hoffers)⟩

/-- A leaf beside `config` and `state` that have a leaf of the same name, and a container behind it
that has a list of the same name. -/
theorem precedence_iff_later_list :
    let x := Node.leaf "x" .string
    let list := Node.list "x" ["id"] [.leaf "id" .string]
    let top := Node.container "top"
      [.container "config" [x], .container "state" [x], x, .container "y" [list]]
    let declared := Node.module "m" [top]
    let tree := Tree.copyOf declared
    let directory := Directory.ofSite true ⟨top, [declared]⟩
    Tree.ofNode declared = .ok tree ∧ directory ∈ (collect tree true).directories ∧
      directory.Precedence true "x" := by
  intro x list top declared tree directory
  have htree : Tree.ofNode declared = .ok tree :=
    Tree.ofNode_eq rfl (by decide +kernel)
  have hd : directory ∈ (collect tree true).directories :=
    mem_collect_iff.2 ⟨_, Site.Under.self.step List.mem_cons_self, by decide, rfl⟩
  have hkept : directory.site.KeptChild true "x" ⟨x, [top, declared]⟩ :=
    ⟨Site.mem_children_iff.2 ⟨x, List.mem_cons_of_mem _ (List.mem_cons_of_mem _
      List.mem_cons_self), rfl⟩, rfl, by decide⟩
  have hlater : ∀ child ∈ directory.site.children, child.surroundsList = true →
      compare child.name "x" ≠ .lt := by decide +kernel
  refine ⟨htree, hd, (precedence_iff htree hd "x").2 ⟨?_, fun hnone => absurd hkept (hnone _)⟩⟩
  rintro _ _ ⟨child, hchild, hsurrounds, hlt⟩
  exact hlater child hchild hsurrounds.surroundsList hlt

/-- A list in `config` takes the place of a leaf beside it, and a list in `state` that of a leaf in
`config`. -/
theorem not_precedence :
    let list := Node.list "x" ["id"] [.leaf "id" .string]
    let leaf := Node.leaf "x" .string
    let first := Node.container "first" [.container "config" [list], leaf]
    let second := Node.container "second" [.container "config" [leaf], .container "state" [list]]
    let declared := Node.module "m" [first, second]
    let tree := Tree.copyOf declared
    let one := Directory.ofSite true ⟨first, [declared]⟩
    let other := Directory.ofSite true ⟨second, [declared]⟩
    Tree.ofNode declared = .ok tree ∧
      (one ∈ (collect tree true).directories ∧ ¬ one.Precedence true "x") ∧
      other ∈ (collect tree true).directories ∧ ¬ other.Precedence true "x" := by
  intro list leaf first second declared tree one other
  have htree : Tree.ofNode declared = .ok tree :=
    Tree.ofNode_eq rfl (by decide +kernel)
  have hone : one ∈ (collect tree true).directories :=
    mem_collect_iff.2 ⟨_, Site.Under.self.step List.mem_cons_self, by decide, rfl⟩
  have hsite : tree.HasSite ⟨second, [declared]⟩ :=
    Site.Under.self.step (List.mem_cons_of_mem _ List.mem_cons_self)
  have hother : other ∈ (collect tree true).directories :=
    mem_collect_iff.2 ⟨_, hsite, by decide, rfl⟩
  refine ⟨htree, ⟨hone, fun hprecedence => ?_⟩, hother, fun hprecedence => ?_⟩
  · have hkept : one.site.KeptChild true "x" ⟨leaf, [first, declared]⟩ :=
      ⟨Site.mem_children_iff.2 ⟨leaf, List.mem_cons_of_mem _ List.mem_cons_self, rfl⟩, rfl,
        by decide⟩
    have hpath := congrArg (Option.map Site.pathText) (hprecedence.direct _ hkept)
    revert hpath
    decide +kernel
  · have hdistinct : second.Distinct := hsite.distinct (Tree.distinct_root htree)
    have hnone : ∀ child, ¬ other.site.KeptChild true "x" child := by
      have hname : ∀ child ∈ other.site.children, child.name ≠ "x" := by decide +kernel
      exact fun child hchild => hname child hchild.mem hchild.name_eq
    have hconfig : other.site.ElidedChild true "config" ⟨.container "config" [leaf],
        [second, declared]⟩ :=
      ⟨Site.mem_children_iff.2 ⟨_, List.mem_cons_self, rfl⟩, rfl, by decide⟩
    have hoffers : (⟨.container "config" [leaf], [second, declared]⟩ : Site).Offers true "x" :=
      ⟨_, .step .self (by decide) List.mem_cons_self, by decide, rfl⟩
    have hstate : other.site.ElidedChild true "state" ⟨.container "state" [list],
        [second, declared]⟩ :=
      ⟨Site.mem_children_iff.2 ⟨_, List.mem_cons_of_mem _ List.mem_cons_self, rfl⟩, rfl, by decide⟩
    obtain ⟨child, hchild, hsurrounds, hlt⟩ :=
      (Site.find?_fields_not_under_state_iff hdistinct hnone hconfig hoffers).1
        (hprecedence.config hnone _ hconfig hoffers) _ hstate
        ⟨by decide, list, rfl, rfl, rfl⟩
    have hbefore : ∀ child ∈ other.site.children, child.surroundsList = true →
        compare child.name "state" ≠ .lt := by decide +kernel
    exact hbefore child hchild hsurrounds.surroundsList hlt

end DirectorySet

end YangToProto

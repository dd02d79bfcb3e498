import YangToProto.Proofs.Schema.Sites

/-!
# The arena of a tree

A declaration is taken into an arena just when nothing is wrong with any of its nodes by itself:
leaves have types and siblings have different names (`Node.Acceptable`). What the insertion of a
node does to an arena that is built in part is the same for every such arena
(`Arena.insert_eq`): the copies of the node and of everything below it are added at the end, in
declared order, and nothing that was there changes. A node whose children are being inserted is
open: it lists those that are complete (`ArenaNode.opened`), and the insertion of the others closes
it (`Arena.insertAll_eq`). So the arena of a tree is the list of its declared sites, each linked by
the positions in this list (`Tree.arena_eq`).
-/

namespace YangToProto

theorem setIfInBounds_push_size {α : Type} (array : Array α) (one other : α) :
    (array.push one).setIfInBounds array.size other = array.push other := by
  grind

theorem setIfInBounds_of_getElem? {α : Type} {array : Array α} {i : Nat} {item : α}
    (h : array[i]? = some item) : array.setIfInBounds i item = array := by
  grind

theorem push_append_toArray {α : Type} (array : Array α) (item : α) (items : List α) :
    array.push item ++ items.toArray = array ++ (item :: items).toArray := by
  grind

/-- Nothing is wrong with the node itself: it has a type if it carries values, and its children have
different names. -/
structure Node.Acceptable (node : Node) : Prop where
  typed : node.kind.isLeaf = true → node.type.isSome = true
  distinct : (node.children.map Node.name).Nodup

instance (node : Node) : Decidable node.Acceptable :=
  decidable_of_iff ((node.kind.isLeaf = true → node.type.isSome = true) ∧
    (node.children.map Node.name).Nodup) ⟨fun h => ⟨h.1, h.2⟩, fun h => ⟨h.1, h.2⟩⟩

/-!
## Which declarations are accepted
-/

namespace Arena

theorem insert_eq_ok_iff {arena grown : Arena} {parent : Option Nat} {node : Node}
    {number : Nat} :
    insert arena parent node = .ok (number, grown) ↔
      ¬ (node.kind.isLeaf && node.type.isNone) = true ∧ number = arena.size ∧
        insertAll (arena.push ⟨node.name, node.kind, arena.pathBelow parent node.name, parent, [],
          node.key, node.type⟩) arena.size node.children = .ok grown := by
  obtain ⟨name, kind, key, type, children⟩ := node
  rw [insert]
  by_cases hleaf : (kind.isLeaf && type.isNone) = true
  · simp [hleaf, throw, throwThe, MonadExceptOf.throw, bind, Except.bind]
  · simp only [hleaf, bind, Except.bind, pure, Except.pure]
    generalize insertAll _ arena.size children = result
    cases result with
    | error fault => simp
    | ok result => simp [eq_comm]

theorem insertAll_cons_eq_ok_iff {arena grown : Arena} {parent : Nat} {child : Node}
    {rest : List Node} :
    insertAll arena parent (child :: rest) = .ok grown ↔
      ∃ number middle linked, insert arena (some parent) child = .ok (number, middle) ∧
        middle.link parent child.name number = .ok linked ∧
        insertAll linked parent rest = .ok grown := by
  rw [insertAll]
  cases insert arena (some parent) child with
  | error fault => simp [bind, Except.bind]
  | ok result =>
      obtain ⟨number, middle⟩ := result
      simp only [bind, Except.bind]
      cases hlink : middle.link parent child.name number with
      | error fault =>
          refine ⟨fun h => (nomatch h), ?_⟩
          rintro ⟨_, _, linked, heq, hlinked, _⟩
          cases heq
          exact absurd (hlink.symm.trans hlinked) (by simp)
      | ok linked =>
          refine ⟨fun h => ⟨number, middle, linked, rfl, hlink, h⟩, ?_⟩
          rintro ⟨_, _, linked', heq, hlinked, hrest⟩
          cases heq
          cases hlink.symm.trans hlinked
          exact hrest

/-- A child is entered if its name is new. -/
theorem link_eq_ok_iff {arena linked : Arena} {parent number : Nat} {name : String}
    {node : ArenaNode} (h : arena[parent]? = some node) :
    arena.link parent name number = .ok linked ↔
      name ∉ node.children.map Prod.fst ∧
        linked = arena.setIfInBounds parent
          { node with children := node.children ++ [(name, number)] } := by
  have hnew : (node.children.lookup name).isSome = true ↔ name ∈ node.children.map Prod.fst := by
    rw [← not_iff_not, Bool.not_eq_true, Option.isSome_eq_false_iff, Option.isNone_iff_eq_none,
      List.lookup_eq_none_iff, List.mem_map]
    simp only [bne_iff_ne, ne_eq, not_exists, not_and]
    exact ⟨fun hall entry he heq => hall entry he heq.symm,
      fun hall entry he heq => hall entry he heq.symm⟩
  rw [link, h]
  simp only [hnew]
  split
  · rename_i hused
    simp [hused]
  · rename_i hfree
    simp [hfree, eq_comm]

mutual

/-- A node that is inserted is acceptable with everything below it. The nodes that were there stay
as they are. -/
theorem of_insert (node : Node) (ancestors : List Node) {arena grown : Arena}
    {parent : Option Nat} {number : Nat} (h : insert arena parent node = .ok (number, grown)) :
    (∀ site ∈ node.sites ancestors, site.node.Acceptable) ∧ arena.size ≤ grown.size ∧
      ∀ other, other < arena.size → grown[other]? = arena[other]? := by
  obtain ⟨name, kind, key, type, children⟩ := node
  obtain ⟨hleaf, _, hall⟩ := insert_eq_ok_iff.1 h
  obtain ⟨hbelow, hdistinct, _, hsize, hkept⟩ := of_insertAll children
    (⟨name, kind, key, type, children⟩ :: ancestors) hall Array.getElem?_push_size
  have htyped : kind.isLeaf = true → type.isSome = true := by
    cases type <;> simp_all
  rw [Array.size_push] at hsize hkept
  rw [Node.sites, List.forall_mem_cons]
  refine ⟨⟨⟨htyped, hdistinct⟩, hbelow⟩, Nat.le_of_succ_le hsize, fun other ho => ?_⟩
  rw [hkept other (Nat.lt_succ_of_lt ho) (Nat.ne_of_lt ho), Array.getElem?_push,
    if_neg (Nat.ne_of_lt ho)]
termination_by structural node

theorem of_insertAll (nodes : List Node) (ancestors : List Node) {arena grown : Arena}
    {parent : Nat} {open' : ArenaNode} (h : insertAll arena parent nodes = .ok grown)
    (hopen : arena[parent]? = some open') :
    (∀ site ∈ Node.sitesAll ancestors nodes, site.node.Acceptable) ∧
      (nodes.map Node.name).Nodup ∧
      (∀ name ∈ nodes.map Node.name, name ∉ open'.children.map Prod.fst) ∧
      arena.size ≤ grown.size ∧
      ∀ other, other < arena.size → other ≠ parent → grown[other]? = arena[other]? := by
  cases nodes with
  | nil =>
      cases h
      exact ⟨by simp [Node.sitesAll], List.nodup_nil, by simp, Nat.le_refl _, fun _ _ _ => rfl⟩
  | cons child rest =>
      obtain ⟨number, middle, linked, hchild, hlink, hrest⟩ := insertAll_cons_eq_ok_iff.1 h
      obtain ⟨hhere, hsize, hkept⟩ := of_insert child ancestors hchild
      have hlt : parent < arena.size := (Array.getElem?_eq_some_iff.1 hopen).1
      have hmiddle : middle[parent]? = some open' := (hkept parent hlt).trans hopen
      obtain ⟨hnew, rfl⟩ := (link_eq_ok_iff hmiddle).1 hlink
      have hlinked : (middle.setIfInBounds parent
          { open' with children := open'.children ++ [(child.name, number)] })[parent]? =
            some { open' with children := open'.children ++ [(child.name, number)] } := by
        rw [Array.getElem?_setIfInBounds, if_pos rfl, if_pos (Nat.lt_of_lt_of_le hlt hsize)]
      obtain ⟨hbelow, hdistinct, hfree, hsize', hkept'⟩ := of_insertAll rest ancestors hrest hlinked
      rw [Array.size_setIfInBounds] at hsize' hkept'
      simp only [List.map_append, List.map_cons, List.map_nil, List.mem_append, List.mem_singleton,
        not_or] at hfree
      rw [Node.sitesAll, List.forall_mem_append, List.map_cons, List.nodup_cons,
        List.forall_mem_cons]
      refine ⟨⟨hhere, hbelow⟩, ⟨fun hmem => (hfree _ hmem).2 rfl, hdistinct⟩,
        ⟨hnew, fun name hmem => (hfree name hmem).1⟩, Nat.le_trans hsize hsize',
        fun other ho hne => ?_⟩
      rw [hkept' other (Nat.lt_of_lt_of_le ho hsize) hne, Array.getElem?_setIfInBounds,
        if_neg (Ne.symm hne), hkept other ho]
termination_by structural nodes

end

end Arena

/-!
## Copies of declared sites
-/

namespace ArenaNode

/-- The copy of a declared site, linked by numbers of paths. -/
def ofSite (numbering : List String → Nat) (site : Site) : ArenaNode where
  name := site.name
  kind := site.kind
  path := site.path
  parent := site.parent?.map fun parent => numbering parent.path
  children := site.node.children.map fun child =>
    (child.name, numbering (site.path ++ [child.name]))
  key := site.node.key
  type := site.node.type

/-- The copy of a site of which some children have been entered. -/
def opened (numbering : List String → Nat) (site : Site) (done : List Node) : ArenaNode :=
  { ofSite numbering site with
    children := done.map fun child => (child.name, numbering (site.path ++ [child.name])) }

end ArenaNode

/-- A numbering counts sites one by one. -/
def NumbersFrom (numbering : List String → Nat) (first : Nat) (sites : List Site) : Prop :=
  ∀ i site, sites[i]? = some site → numbering site.path = first + i

namespace NumbersFrom

variable {numbering : List String → Nat} {first : Nat} {sites rest : List Site}

theorem head {site : Site} (h : NumbersFrom numbering first (site :: rest)) :
    numbering site.path = first := h 0 site rfl

theorem tail {site : Site} (h : NumbersFrom numbering first (site :: rest)) :
    NumbersFrom numbering (first + 1) rest := fun i other hi => by
  rw [h (i + 1) other hi, Nat.add_assoc, Nat.add_comm 1]

theorem left (h : NumbersFrom numbering first (sites ++ rest)) :
    NumbersFrom numbering first sites := fun i site hi =>
  h i site ((List.getElem?_append_left (List.getElem?_eq_some_iff.1 hi).1).trans hi)

theorem right (h : NumbersFrom numbering first (sites ++ rest)) :
    NumbersFrom numbering (first + sites.length) rest := fun i site hi => by
  have hplace : (sites ++ rest)[sites.length + i]? = some site := by
    rw [List.getElem?_append_right (Nat.le_add_right _ _), Nat.add_sub_cancel_left, hi]
  rw [h _ site hplace, Nat.add_assoc]

end NumbersFrom

namespace Arena

open ArenaNode

variable {numbering : List String → Nat}

/-- A child whose copy stands behind the arena is entered into its parent, which is still open. -/
theorem link_opened {site : Site} {done : List Node} {child : Node} {arena : Arena} {number : Nat}
    (hopen : arena[number]? = some (opened numbering site done))
    (hnew : child.name ∉ done.map Node.name)
    (hchild : numbering (site.path ++ [child.name]) = arena.size) (copies : Arena) :
    (arena ++ copies).link number child.name arena.size =
      .ok (arena.setIfInBounds number (opened numbering site (done ++ [child])) ++ copies) := by
  have hlt : number < arena.size := (Array.getElem?_eq_some_iff.1 hopen).1
  have hnames : (opened numbering site done).children.map Prod.fst = done.map Node.name := by
    rw [opened, List.map_map]
    rfl
  have hentered : { opened numbering site done with
      children := (opened numbering site done).children ++ [(child.name, arena.size)] } =
        opened numbering site (done ++ [child]) := by
    rw [opened, opened, List.map_append, ← hchild]
    rfl
  refine (link_eq_ok_iff ((Array.getElem?_append_left hlt).trans hopen)).2 ⟨hnames ▸ hnew, ?_⟩
  rw [hentered, Array.setIfInBounds_append_left hlt]

mutual

/-- An acceptable node is inserted into any arena by adding the copies of all sites at and below it,
if these are numbered in declared order from the end of the arena on. -/
theorem insert_eq (node : Node) (ancestors : List Node) {arena : Arena} {parent : Option Nat}
    (hparent : parent = (⟨node, ancestors⟩ : Site).parent?.map fun above => numbering above.path)
    (hpath : arena.pathBelow parent node.name = (⟨node, ancestors⟩ : Site).path)
    (hacceptable : ∀ site ∈ node.sites ancestors, site.node.Acceptable)
    (hnumbers : NumbersFrom numbering arena.size (node.sites ancestors)) :
    insert arena parent node = .ok (arena.size,
      arena ++ ((node.sites ancestors).map (ofSite numbering)).toArray) := by
  obtain ⟨name, kind, key, type, children⟩ := node
  let site : Site := ⟨⟨name, kind, key, type, children⟩, ancestors⟩
  rw [Node.sites, List.forall_mem_cons] at hacceptable
  rw [Node.sites] at hnumbers ⊢
  obtain ⟨⟨htyped, hdistinct⟩, hbelow⟩ := hacceptable
  have hleaf : ¬ (kind.isLeaf && type.isNone) = true := by
    cases type <;> simp_all
  have hnew : (⟨name, kind, arena.pathBelow parent name, parent, [], key, type⟩ : ArenaNode) =
      opened numbering site [] := by
    rw [hpath, hparent]
    rfl
  have hopen : (arena.push (opened numbering site []))[arena.size]? =
      some (opened numbering site []) := Array.getElem?_push_size
  have hrest := insertAll_eq children site [] rfl hopen hbelow hdistinct hnumbers.head
    ((Array.size_push _).symm ▸ hnumbers.tail)
  refine insert_eq_ok_iff.2 ⟨hleaf, rfl, ?_⟩
  rw [hnew, hrest, setIfInBounds_push_size, push_append_toArray]
  rfl
termination_by structural node

/-- The children that remain of a node are inserted by adding the copies of all sites at and below
them and closing the node. -/
theorem insertAll_eq (rest : List Node) (site : Site) (done : List Node) {arena : Arena}
    {number : Nat} (hsplit : site.node.children = done ++ rest)
    (hopen : arena[number]? = some (opened numbering site done))
    (hacceptable : ∀ below ∈ Node.sitesAll (site.node :: site.ancestors) rest,
      below.node.Acceptable)
    (hdistinct : ((done ++ rest).map Node.name).Nodup)
    (hnumber : numbering site.path = number)
    (hnumbers : NumbersFrom numbering arena.size
      (Node.sitesAll (site.node :: site.ancestors) rest)) :
    insertAll arena number rest = .ok (arena.setIfInBounds number (ofSite numbering site) ++
      ((Node.sitesAll (site.node :: site.ancestors) rest).map (ofSite numbering)).toArray) := by
  cases rest with
  | nil =>
      rw [List.append_nil] at hsplit
      have hclosed : opened numbering site done = ofSite numbering site := by
        rw [opened, ← hsplit]
        rfl
      rw [insertAll, Node.sitesAll, List.map_nil, Array.append_empty, ← hclosed,
        setIfInBounds_of_getElem? hopen]
      rfl
  | cons child rest =>
      rw [Node.sitesAll, List.forall_mem_append] at hacceptable
      rw [Node.sitesAll] at hnumbers
      have hlt : number < arena.size := (Array.getElem?_eq_some_iff.1 hopen).1
      have hpath : arena.pathBelow (some number) child.name = (site.below child).path := by
        rw [pathBelow, Option.bind_some, hopen, Site.path_below]
        rfl
      have hchild := insert_eq child (site.node :: site.ancestors)
        (congrArg some hnumber.symm) hpath hacceptable.1 hnumbers.left
      have hfirst : numbering (site.path ++ [child.name]) = arena.size := by
        have hhead := hnumbers 0 (site.below child) (by cases child; rfl)
        rwa [Site.path_below] at hhead
      have hnew : child.name ∉ done.map Node.name := by
        rw [List.map_append, List.map_cons, List.nodup_append] at hdistinct
        exact fun hmem => hdistinct.2.2 child.name hmem child.name List.mem_cons_self rfl
      have hopen' :
          (arena.setIfInBounds number (opened numbering site (done ++ [child])))[number]? =
            some (opened numbering site (done ++ [child])) := by
        rw [Array.getElem?_setIfInBounds, if_pos rfl, if_pos hlt]
      have hlt' := (Array.getElem?_eq_some_iff.1 hopen').1
      refine insertAll_cons_eq_ok_iff.2 ⟨_, _, _, hchild, link_opened hopen hnew hfirst _, ?_⟩
      rw [insertAll_eq rest site (done ++ [child]) (by simp [hsplit])
        ((Array.getElem?_append_left hlt').trans hopen') hacceptable.2 (by simpa using hdistinct)
        hnumber (by simpa using hnumbers.right), Array.setIfInBounds_append_left hlt',
        Array.setIfInBounds_setIfInBounds, Array.append_assoc, Node.sitesAll, List.map_append,
        ← List.append_toArray]
termination_by structural rest

end

end Arena

/-!
## Paths in declared order
-/

namespace Node

mutual

theorem distinct_of_acceptable (node : Node) {ancestors : List Node}
    (h : ∀ site ∈ node.sites ancestors, site.node.Acceptable) : node.Distinct := by
  obtain ⟨name, kind, key, type, children⟩ := node
  rw [sites, List.forall_mem_cons] at h
  exact .intro h.1.distinct (forall_distinct_of_acceptable children h.2)
termination_by structural node

theorem forall_distinct_of_acceptable (nodes : List Node) {ancestors : List Node}
    (h : ∀ site ∈ sitesAll ancestors nodes, site.node.Acceptable) :
    ∀ node ∈ nodes, node.Distinct := by
  cases nodes with
  | nil => simp
  | cons node rest =>
      rw [sitesAll, List.forall_mem_append] at h
      exact List.forall_mem_cons.2
        ⟨distinct_of_acceptable node h.1, forall_distinct_of_acceptable rest h.2⟩
termination_by structural nodes

end

mutual

/-- A path does not come before one that leads to it, and not twice. -/
theorem pairwise_sites (node : Node) {ancestors : List Node}
    (h : ∀ site ∈ node.sites ancestors, site.node.Acceptable) :
    (node.sites ancestors).Pairwise fun one other => ¬ other.path <+: one.path := by
  obtain ⟨name, kind, key, type, children⟩ := node
  rw [sites, List.forall_mem_cons] at h
  rw [sites]
  refine List.pairwise_cons.2
    ⟨fun other ho hpath => ?_, pairwise_sitesAll children h.1.distinct h.2⟩
  obtain ⟨child, hc, hunder⟩ := (mem_sitesAll_iff children).1 ho
  have hlength := (hunder.path_prefix.trans hpath).length_le
  simp [Site.path] at hlength
termination_by structural node

theorem pairwise_sitesAll (nodes : List Node) {ancestors : List Node}
    (hdistinct : (nodes.map Node.name).Nodup)
    (h : ∀ site ∈ sitesAll ancestors nodes, site.node.Acceptable) :
    (sitesAll ancestors nodes).Pairwise fun one other => ¬ other.path <+: one.path := by
  cases nodes with
  | nil => simp [sitesAll]
  | cons node rest =>
      rw [sitesAll, List.forall_mem_append] at h
      rw [List.map_cons, List.nodup_cons] at hdistinct
      rw [sitesAll]
      refine List.pairwise_append.2
        ⟨pairwise_sites node h.1, pairwise_sitesAll rest hdistinct.2 h.2, ?_⟩
      intro one hone other hother hpath
      obtain ⟨sibling, hs, hunder⟩ := (mem_sitesAll_iff rest).1 hother
      have hown : Site.Under ⟨node, ancestors⟩ one := (mem_sites_iff node).1 hone
      have hname : node.name = sibling.name :=
        Site.name_eq_of_paths_above hown.path_prefix (hunder.path_prefix.trans hpath)
      exact hdistinct.1 (hname ▸ List.mem_map_of_mem hs)
termination_by structural nodes

end

/-- The position of a path among those of the declared sites. -/
def numbering (declared : Node) (path : List String) : Nat :=
  ((declared.sites []).map Site.path).idxOf path

/-- Positions tell declared sites apart. -/
theorem nodup_paths {declared : Node}
    (h : ∀ site ∈ declared.sites [], site.node.Acceptable) :
    ((declared.sites []).map Site.path).Nodup := by
  rw [List.Nodup, List.pairwise_map]
  refine (pairwise_sites declared h).imp fun hnot heq => hnot ?_
  exact heq ▸ List.prefix_rfl

/-- The path of a site is found where the site is. -/
theorem numbering_eq_iff {declared : Node}
    (h : ∀ site ∈ declared.sites [], site.node.Acceptable) {number : Nat} {site : Site}
    (hsite : site ∈ declared.sites []) :
    declared.numbering site.path = number ↔ (declared.sites [])[number]? = some site := by
  have hpath : site.path ∈ (declared.sites []).map Site.path := List.mem_map_of_mem hsite
  constructor
  · rintro rfl
    have hlt := List.idxOf_lt_length_of_mem hpath
    have hget := List.getElem_idxOf hlt
    rw [List.getElem_map] at hget
    rw [List.length_map] at hlt
    refine List.getElem?_eq_some_iff.2 ⟨hlt, ?_⟩
    exact List.inj_on_of_nodup_map (nodup_paths h) (List.getElem_mem hlt) hsite hget
  · intro hnumber
    obtain ⟨hlt, rfl⟩ := List.getElem?_eq_some_iff.1 hnumber
    rw [← List.length_map (f := Site.path)] at hlt
    have hidx := (nodup_paths h).idxOf_getElem number hlt
    rwa [List.getElem_map] at hidx

end Node

/-!
## Trees
-/

namespace Tree

variable {declared : Node} {tree : Tree}

/-- A tree is made of a module that can be taken into an arena. -/
theorem ofNode_eq_ok_iff :
    ofNode declared = .ok tree ↔
      declared.kind = .module ∧ tree.root = declared ∧
        ∃ number, Arena.insert #[] none declared = .ok (number, tree.arena) := by
  rw [ofNode]
  by_cases hkind : declared.kind = .module
  · cases hinsert : Arena.insert #[] none declared with
    | error fault => simp [hkind, bind, Except.bind]
    | ok result =>
        obtain ⟨number, arena⟩ := result
        simp only [hkind, bne_self_eq_false, bind, Except.bind, pure, Except.pure]
        constructor
        · intro h
          cases h
          exact ⟨trivial, rfl, number, rfl⟩
        · rintro ⟨_, hroot, _, heq⟩
          cases heq
          rw [← hroot]
          rfl
  · simp [hkind, throw, throwThe, MonadExceptOf.throw, bind, Except.bind]

theorem root_eq (ht : ofNode declared = .ok tree) : tree.root = declared :=
  (ofNode_eq_ok_iff.1 ht).2.1

theorem kind_root (ht : ofNode declared = .ok tree) : tree.root.kind = .module :=
  root_eq ht ▸ (ofNode_eq_ok_iff.1 ht).1

theorem acceptable_of_ofNode (ht : ofNode declared = .ok tree) :
    ∀ site ∈ declared.sites [], site.node.Acceptable := by
  obtain ⟨_, _, _, hinsert⟩ := ofNode_eq_ok_iff.1 ht
  exact (Arena.of_insert declared [] hinsert).1

/-- In a tree siblings have different names. -/
theorem distinct_root (ht : ofNode declared = .ok tree) : tree.root.Distinct :=
  root_eq ht ▸ Node.distinct_of_acceptable declared (acceptable_of_ofNode ht)

/-- The tree of an accepted declaration. -/
def copyOf (declared : Node) : Tree :=
  ⟨declared, ((declared.sites []).map (ArenaNode.ofSite declared.numbering)).toArray⟩

theorem insert_declared (h : ∀ site ∈ declared.sites [], site.node.Acceptable) :
    Arena.insert #[] none declared = .ok (0, (copyOf declared).arena) := by
  have hnumbers : NumbersFrom declared.numbering (#[] : Arena).size (declared.sites []) :=
    fun i site hi => by
      rw [(Node.numbering_eq_iff h (List.mem_of_getElem? hi)).2 hi, Array.size_empty, Nat.zero_add]
  have hinsert := Arena.insert_eq declared [] rfl rfl h hnumbers
  rwa [Array.empty_append] at hinsert

theorem ofNode_eq (hkind : declared.kind = .module)
    (h : ∀ site ∈ declared.sites [], site.node.Acceptable) :
    ofNode declared = .ok (copyOf declared) :=
  ofNode_eq_ok_iff.2 ⟨hkind, rfl, _, insert_declared h⟩

/-- The arena of a tree holds the copies of the declared sites in order. -/
theorem arena_eq (ht : ofNode declared = .ok tree) :
    tree.arena = ((declared.sites []).map (ArenaNode.ofSite declared.numbering)).toArray := by
  rw [ofNode_eq (ofNode_eq_ok_iff.1 ht).1 (acceptable_of_ofNode ht)] at ht
  exact congrArg arena (Except.ok.inj ht).symm

theorem getElem?_arena (ht : ofNode declared = .ok tree) (number : Nat) :
    tree.arena[number]? =
      ((declared.sites [])[number]?).map (ArenaNode.ofSite declared.numbering) := by
  rw [arena_eq ht, List.getElem?_toArray, List.getElem?_map]

/-- Which declarations are accepted. -/
theorem exists_ofNode_iff :
    (∃ tree, ofNode declared = .ok tree) ↔
      declared.kind = .module ∧ ∀ site ∈ declared.sites [], site.node.Acceptable := by
  constructor
  · rintro ⟨tree, ht⟩
    exact ⟨(ofNode_eq_ok_iff.1 ht).1, acceptable_of_ofNode ht⟩
  · rintro ⟨hkind, h⟩
    exact ⟨_, ofNode_eq hkind h⟩

end Tree

end YangToProto

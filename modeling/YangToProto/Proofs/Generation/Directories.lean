import YangToProto.Generation.Run
import YangToProto.Proofs.Collection.Entries
import YangToProto.Proofs.Schema.Arena

/-!
# Directories of a tree

Collecting goes through the tree bottom up. It meets every site that becomes a message once, after
all those below it and otherwise in name order (`DirectorySet.collect_in_order`), and where no name
holds a slash the path text of a directory leads back to it (`find?_collect`). Looking
downwards for fields goes through elided levels (`Site.Through`) and agrees with looking upwards for
the holder: a field is not elided, goes by its own name, and its holder is the directory
(`Site.of_mem_fields`).
-/

namespace YangToProto

namespace Directory

@[simp] theorem site_ofSite (compress : Bool) (site : Site) : (ofSite compress site).site = site :=
  rfl

@[simp] theorem path_ofSite (compress : Bool) (site : Site) :
    (ofSite compress site).path = site.pathText := rfl

@[simp] theorem fields_ofSite (compress : Bool) (site : Site) :
    (ofSite compress site).fields = site.fields compress := rfl

end Directory

namespace Site

variable {compress : Bool}

theorem joinByName_map {α β : Type} (name : α → String) (f : α → List β) (items : List α) :
    joinByName (items.map fun item => (name item, f item)) = (sortByName name items).flatMap f := by
  rw [joinByName, sortByName_map, List.flatMap_map]

theorem directoriesAll_eq {ancestors nodes : List Node} :
    directoriesAll compress ancestors nodes =
      nodes.map fun node => (node.name, directories compress ancestors node) := by
  induction nodes with
  | nil => rfl
  | cons node rest ih => rw [directoriesAll, ih, List.map_cons]

/-- The directories at and below a site: those of its children in name order, and its own. -/
theorem directories_eq (site : Site) :
    directories compress site.ancestors site.node =
      site.children.flatMap (fun child => directories compress child.ancestors child.node) ++
        if site.isMessage compress then [Directory.ofSite compress site] else [] := by
  obtain ⟨⟨name, kind, key, type, nodes⟩, ancestors⟩ := site
  rw [directories, directoriesAll_eq, joinByName_map, children, List.flatMap_map]
  rfl

/-- The directories at and below a node are the messages among the sites there. -/
theorem mem_directories_iff (node : Node) {ancestors : List Node} {directory : Directory} :
    directory ∈ directories compress ancestors node ↔
      ∃ site, Under ⟨node, ancestors⟩ site ∧ site.isMessage compress = true ∧
        directory = Directory.ofSite compress site := by
  induction node using Node.holds_of_children generalizing ancestors with
  | step node ih =>
      rw [directories_eq ⟨node, ancestors⟩, List.mem_append, List.mem_flatMap]
      constructor
      · rintro (⟨child, hchild, hd⟩ | hown)
        · obtain ⟨below, hc, rfl⟩ := mem_children_iff.1 hchild
          obtain ⟨site, hunder, hmessage, rfl⟩ := (ih below hc).1 hd
          exact ⟨site, Under.of_child hc hunder, hmessage, rfl⟩
        · split at hown
          · rename_i hmessage
            exact ⟨_, Under.self, hmessage, List.mem_singleton.1 hown⟩
          · simp at hown
      · rintro ⟨site, hunder, hmessage, rfl⟩
        rcases hunder.eq_or_child with rfl | ⟨below, hc, hbelow⟩
        · exact Or.inr (by rw [if_pos hmessage]; exact List.mem_singleton.2 rfl)
        · exact Or.inl ⟨_, mem_children_iff.2 ⟨below, hc, rfl⟩,
            (ih below hc).2 ⟨site, hbelow, hmessage, rfl⟩⟩

/-- A site is not below its own child. -/
theorem not_under_child (site : Site) {child : Node} : ¬ Under (site.below child) site := by
  intro h
  have hlength := h.path_prefix.length_le
  rw [path_below, List.length_append, List.length_singleton] at hlength
  omega

/-- Sites at or below one another are one. -/
theorem Under.antisymm {one other : Site} (h : Under one other) (h' : Under other one) :
    one = other := by
  rcases h'.eq_or_child with heq | ⟨child, _, hbelow⟩
  · exact heq
  · exact absurd (hbelow.trans h) (not_under_child other)

/-- One site is collected in front of another one: it lies strictly below it, or the names at which
their paths first differ are in this order. -/
inductive Precedes (one other : Site) : Prop where
  | below (h : Under other one) (hne : one ≠ other)
  | apart {shared rest rest' : List String} {name name' : String}
      (hone : one.path = shared ++ name :: rest) (hother : other.path = shared ++ name' :: rest')
      (hlt : compare name name' = .lt)

theorem Precedes.not_under {one other : Site} (h : Precedes one other) : ¬ Under one other := by
  intro hunder
  cases h with
  | below h hne => exact hne (hunder.antisymm h)
  | apart hone hother hlt =>
      have hpath := hunder.path_prefix
      rw [hone, hother, List.prefix_append_right_inj, List.cons_prefix_cons] at hpath
      simp [hpath.1] at hlt

/-- Children of different names are met in strictly increasing name order. -/
theorem pairwise_children (site : Site) (h : site.node.Distinct) :
    site.children.Pairwise fun one other => compare one.name other.name = .lt :=
  List.pairwise_map.2 h.increasing

/-- What lies below one child of a site precedes what lies below a later one. -/
theorem precedes_of_children {site one other below below' : Site} (hone : one ∈ site.children)
    (hother : other ∈ site.children) (hlt : compare one.name other.name = .lt)
    (h : one.Under below) (h' : other.Under below') : below.Precedes below' := by
  obtain ⟨node, _, rfl⟩ := mem_children_iff.1 hone
  obtain ⟨node', _, rfl⟩ := mem_children_iff.1 hother
  obtain ⟨more, hmore⟩ := h.path_prefix
  obtain ⟨more', hmore'⟩ := h'.path_prefix
  rw [path_below, List.append_assoc] at hmore hmore'
  exact .apart hmore.symm hmore'.symm hlt

/-- The directories at and below a node are listed bottom up and in name order. -/
theorem pairwise_directories (node : Node) {ancestors : List Node} (h : node.Distinct) :
    (directories compress ancestors node).Pairwise
      fun one other => one.site.Precedes other.site := by
  induction node using Node.holds_of_children generalizing ancestors with
  | step node ih =>
      rw [directories_eq ⟨node, ancestors⟩, List.pairwise_append, List.pairwise_flatMap]
      refine ⟨⟨fun child hchild => ?_, ?_⟩, ?_, fun one hone other hother => ?_⟩
      · obtain ⟨below, hc, rfl⟩ := mem_children_iff.1 hchild
        exact ih below hc (h.child hc)
      · refine (pairwise_children ⟨node, ancestors⟩ h).imp_of_mem ?_
        intro child child' hchild hchild' hlt one hone other hother
        obtain ⟨site, hsite, _, rfl⟩ := (mem_directories_iff child.node).1 hone
        obtain ⟨site', hsite', _, rfl⟩ := (mem_directories_iff child'.node).1 hother
        exact precedes_of_children hchild hchild' hlt hsite hsite'
      · split <;> simp
      · obtain ⟨child, hchild, hmem⟩ := List.mem_flatMap.1 hone
        obtain ⟨below, hc, rfl⟩ := mem_children_iff.1 hchild
        obtain ⟨site, hbelow, _, rfl⟩ := (mem_directories_iff below).1 hmem
        split at hother
        · rw [List.mem_singleton.1 hother]
          refine .below (hbelow.of_child hc) fun heq => ?_
          rw [Directory.site_ofSite, Directory.site_ofSite] at heq
          exact not_under_child ⟨node, ancestors⟩ (heq ▸ hbelow)
        · exact absurd hother List.not_mem_nil

/-!
## Fields
-/

theorem holderAmong?_cons (node : Node) {above : List Node} (h : above ≠ []) :
    holderAmong? compress (node :: above) =
      if isElided compress ⟨node, above⟩ then holderAmong? compress above
      else some ⟨node, above⟩ := by
  cases above with
  | nil => exact absurd rfl h
  | cons parent above => rfl

theorem isMessage_iff {site : Site} : site.isMessage compress = true ↔
    site.ancestors ≠ [] ∧ site.kind.isDirectory = true ∧ site.isElided compress = false := by
  rw [isMessage, Bool.and_eq_true, Bool.and_eq_true, Bool.not_eq_true', Bool.not_eq_true',
    List.isEmpty_eq_false_iff, and_assoc]

/-- The way up from the children of a message ends at it. -/
theorem holderAmong?_of_isMessage {site : Site} (h : site.isMessage compress = true) :
    holderAmong? compress (site.node :: site.ancestors) = some site := by
  obtain ⟨hbelow, _, hkept⟩ := isMessage_iff.1 h
  rw [holderAmong?_cons _ hbelow, hkept]
  rfl

theorem ancestors_ne_nil_of_under {site field : Site} (h : site.Under field)
    (ha : site.ancestors ≠ []) : field.ancestors ≠ [] := by
  cases h with
  | self => exact ha
  | step => exact List.cons_ne_nil _ _

/-- The sites that are reached from `top` by going to children of elided sites. -/
inductive Through (compress : Bool) (top : Site) : Site → Prop where
  | self : Through compress top top
  | step {site : Site} {child : Node} (h : Through compress top site)
      (helided : site.isElided compress = true) (hc : child ∈ site.node.children) :
      Through compress top (site.below child)

namespace Through

variable {top site : Site}

theorem under (h : Through compress top site) : top.Under site := by
  induction h with
  | self => exact .self
  | step _ _ hc ih => exact ih.step hc

theorem of_child (helided : top.isElided compress = true) {child : Node}
    (hc : child ∈ top.node.children) (h : Through compress (top.below child) site) :
    Through compress top site := by
  induction h with
  | self => exact .step .self helided hc
  | step _ helided' hc' ih => exact ih.step helided' hc'

/-- Elided levels have no message, so all that is reached through them has one holder. -/
theorem holderAmong?_eq (h : Through compress top site) (ha : top.ancestors ≠ []) :
    holderAmong? compress site.ancestors = holderAmong? compress top.ancestors := by
  induction h with
  | self => rfl
  | @step site child hsite helided _ ih =>
      change holderAmong? compress (site.node :: site.ancestors) = _
      rw [holderAmong?_cons _ (ancestors_ne_nil_of_under hsite.under ha), if_pos helided, ih]

end Through

theorem expandAll_eq {ancestors nodes : List Node} :
    expandAll compress ancestors nodes =
      nodes.map fun node => (node.name, expand compress ancestors node) := by
  induction nodes with
  | nil => rfl
  | cons node rest ih => rw [expandAll, ih, List.map_cons]

/-- What a child contributes: itself, or in name order what its children contribute. -/
theorem expand_eq (site : Site) :
    expand compress site.ancestors site.node =
      if site.isElided compress then
        site.children.flatMap fun child => expand compress child.ancestors child.node
      else [site] := by
  obtain ⟨⟨name, kind, key, type, nodes⟩, ancestors⟩ := site
  rw [expand, expandAll_eq, joinByName_map, children, List.flatMap_map]
  rfl

theorem through_of_mem_expand (node : Node) {ancestors : List Node} {field : Site}
    (h : field ∈ expand compress ancestors node) :
    Through compress ⟨node, ancestors⟩ field ∧ field.isElided compress = false := by
  induction node using Node.holds_of_children generalizing ancestors with
  | step node ih =>
      rw [expand_eq ⟨node, ancestors⟩] at h
      split at h
      · rename_i helided
        obtain ⟨child, hchild, hfield⟩ := List.mem_flatMap.1 h
        obtain ⟨below, hc, rfl⟩ := mem_children_iff.1 hchild
        obtain ⟨hthrough, hkept⟩ := ih below hc hfield
        exact ⟨.of_child helided hc hthrough, hkept⟩
      · rename_i hkept
        obtain rfl := List.mem_singleton.1 h
        exact ⟨.self, by simpa using hkept⟩

/-- What a child contributes lies below it, is not elided, and has the holder that the child
has. -/
theorem of_mem_expand {ancestors : List Node} (node : Node) (ha : ancestors ≠ []) {field : Site}
    (h : field ∈ expand compress ancestors node) :
    Under ⟨node, ancestors⟩ field ∧ field.isElided compress = false ∧
      holderAmong? compress field.ancestors = holderAmong? compress ancestors := by
  obtain ⟨hthrough, hkept⟩ := through_of_mem_expand node h
  exact ⟨hthrough.under, hkept, hthrough.holderAmong?_eq ha⟩

theorem of_mem_fieldsOfRank {site field : Site} {rank : Nat}
    (h : field ∈ site.fieldsOfRank compress rank) :
    site.Under field ∧ field.isElided compress = false ∧
      holderAmong? compress field.ancestors =
        holderAmong? compress (site.node :: site.ancestors) := by
  obtain ⟨child, hchild, hfield⟩ := List.mem_flatMap.1 h
  obtain ⟨node, hnode, rfl⟩ := mem_children_iff.1 (List.mem_filter.1 hchild).1
  obtain ⟨hunder, hkept, hholder⟩ := of_mem_expand node (List.cons_ne_nil _ _) hfield
  exact ⟨Under.of_child hnode hunder, hkept, hholder⟩

theorem find?_foldl_insertNew {sites : List Site} {found : SortedMap String Site} {name : String}
    {field : Site} (h : (sites.foldl (fun found field => found.insertNew field.name field)
      found).find? name = some field) :
    found.find? name = some field ∨ (field ∈ sites ∧ field.name = name) := by
  induction sites generalizing found with
  | nil => exact Or.inl h
  | cons site rest ih =>
      rcases ih h with hfound | ⟨hmem, hname⟩
      · rw [SortedMap.find?_insertNew] at hfound
        split at hfound
        · rename_i heq
          cases hold : found.find? site.name with
          | none =>
              rw [hold] at hfound
              cases hfound
              exact Or.inr ⟨List.mem_cons_self, heq.symm⟩
          | some old =>
              rw [hold] at hfound
              exact Or.inl (heq ▸ hold.trans hfound)
        · exact Or.inl hfound
      · exact Or.inr ⟨List.mem_cons_of_mem _ hmem, hname⟩

/-- A field of a message lies below it, goes by its own name, is not elided, and has the message
as its holder. -/
theorem of_mem_fields {site field : Site} {name : String} (hm : site.isMessage compress = true)
    (h : (name, field) ∈ (site.fields compress).entries) :
    field.name = name ∧ site.Under field ∧ field.isElided compress = false ∧
      field.holder? compress = some site := by
  have hfind := (SortedMap.mem_entries_iff _ _ _).1 h
  rcases find?_foldl_insertNew hfind with hempty | ⟨hmem, hname⟩
  · simp at hempty
  · obtain ⟨rank, _, hrank⟩ := List.mem_flatMap.1 hmem
    obtain ⟨hunder, hkept, hholder⟩ := of_mem_fieldsOfRank hrank
    exact ⟨hname, hunder, hkept, hholder.trans (holderAmong?_of_isMessage hm)⟩

end Site

namespace DirectorySet

variable {tree : Tree} {compress : Bool}

theorem mem_collect_iff {directory : Directory} :
    directory ∈ (collect tree compress).directories ↔
      ∃ site, tree.HasSite site ∧ site.isMessage compress = true ∧
        directory = Directory.ofSite compress site :=
  Site.mem_directories_iff tree.root

theorem precedes_collect (hroot : tree.root.Distinct) :
    (collect tree compress).directories.Pairwise fun one other => one.site.Precedes other.site :=
  Site.pairwise_directories tree.root hroot

/-- Children come before their parents. -/
theorem pairwise_collect (hroot : tree.root.Distinct) :
    (collect tree compress).directories.Pairwise fun one other => ¬ one.site.Under other.site :=
  (precedes_collect hroot).imp Site.Precedes.not_under

theorem nodup_collect (hroot : tree.root.Distinct) :
    ((collect tree compress).directories.map Directory.site).Nodup := by
  rw [List.Nodup, List.pairwise_map]
  refine (pairwise_collect hroot).imp fun hnot heq => hnot ?_
  rw [heq]
  exact .self

theorem hasSite_of_mem_collect {directory : Directory}
    (hd : directory ∈ (collect tree compress).directories) : tree.HasSite directory.site := by
  obtain ⟨site, hsite, _, rfl⟩ := mem_collect_iff.1 hd
  exact hsite

/-- The fields of a directory belong to the tree, and the directory holds them. -/
theorem hasSite_and_holder?_of_mem_collect {directory : Directory} {field : Site}
    (hd : directory ∈ (collect tree compress).directories)
    (hfield : field ∈ directory.fields.values) :
    tree.HasSite field ∧ field.holder? compress = some directory.site := by
  obtain ⟨site, hsite, hmessage, rfl⟩ := mem_collect_iff.1 hd
  obtain ⟨⟨name, field⟩, hentry, rfl⟩ := List.mem_map.1 hfield
  obtain ⟨_, hunder, _, hholder⟩ := Site.of_mem_fields hmessage hentry
  exact ⟨hsite.trans hunder, hholder⟩

/-- A field of a directory that is a container or list has a directory of its own. -/
theorem mem_collect_of_field {directory : Directory} {name : String} {field : Site}
    (hd : directory ∈ (collect tree compress).directories)
    (hf : (name, field) ∈ directory.fields.entries) (hk : field.kind.isDirectory = true) :
    Directory.ofSite compress field ∈ (collect tree compress).directories := by
  obtain ⟨site, hsite, hmessage, rfl⟩ := mem_collect_iff.1 hd
  obtain ⟨_, hunder, hkept, _⟩ := Site.of_mem_fields hmessage hf
  refine mem_collect_iff.2 ⟨field, hsite.trans hunder, ?_, rfl⟩
  have hbelow := (Site.isMessage_iff.1 hmessage).1
  exact Site.isMessage_iff.2 ⟨Site.ancestors_ne_nil_of_under hunder hbelow, hk, hkept⟩

/-- Without slashes in names the path text of a directory leads back to it. -/
theorem find?_collect (hroot : tree.root.Distinct) (hslash : tree.SlashFree)
    {directory : Directory} (hd : directory ∈ (collect tree compress).directories) :
    (collect tree compress).find? directory.path = some directory := by
  obtain ⟨site, hsite, _, rfl⟩ := mem_collect_iff.1 hd
  cases hfind : (collect tree compress).find? (Directory.ofSite compress site).path with
  | none =>
      have hnone := List.find?_eq_none.1 hfind _ (List.mem_reverse.2 hd)
      simp at hnone
  | some found =>
      have hmem := List.mem_reverse.1 (List.mem_of_find?_eq_some hfind)
      have hpath : found.path = (Directory.ofSite compress site).path := by
        simpa using List.find?_some hfind
      obtain ⟨site', hsite', _, rfl⟩ := mem_collect_iff.1 hmem
      cases tree.eq_of_pathText_eq hroot hslash hsite' hsite hpath
      rfl

/-!
## The order of the directories
-/

theorem isMessage_iff_of_hasSite {site : Site} (h : tree.HasSite site) :
    site.isMessage compress = true ↔ site ≠ tree.rootSite ∧
      (site.kind = .container ∨ site.kind = .list) ∧ site.isElided compress = false := by
  have hbelow : site.ancestors ≠ [] ↔ site ≠ tree.rootSite := by
    cases h with
    | self => simp [Tree.rootSite]
    | step => simp [Tree.rootSite, Site.below]
  have hkind : site.kind.isDirectory = true ↔ site.kind = .container ∨ site.kind = .list := by
    cases site.kind <;> simp [NodeKind.isDirectory]
  rw [Site.isMessage_iff, hbelow, hkind]

theorem mem_sites_collect_iff {site : Site} :
    site ∈ (collect tree compress).directories.map Directory.site ↔
      tree.HasSite site ∧ site.isMessage compress = true := by
  rw [List.mem_map]
  constructor
  · rintro ⟨directory, hd, rfl⟩
    obtain ⟨site, hsite, hmessage, rfl⟩ := mem_collect_iff.1 hd
    exact ⟨hsite, hmessage⟩
  · rintro ⟨hsite, hmessage⟩
    exact ⟨_, mem_collect_iff.2 ⟨site, hsite, hmessage, rfl⟩, rfl⟩

/-- The sites of two directories, as far as their positions tell. -/
theorem precedes_of_lt (hroot : tree.root.Distinct) {i j : Nat} {one other : Directory}
    (hi : (collect tree compress).directories[i]? = some one)
    (hj : (collect tree compress).directories[j]? = some other) (h : i < j) :
    one.site.Precedes other.site := by
  obtain ⟨hlt, rfl⟩ := List.getElem?_eq_some_iff.1 hi
  obtain ⟨hlt', rfl⟩ := List.getElem?_eq_some_iff.1 hj
  exact List.pairwise_iff_getElem.1 (precedes_collect hroot) i j hlt hlt' h

/-- The directories of a tree are the containers and lists below the module that are not elided,
each listed once. A directory comes after all those below it, and two of which neither is below the
other come in the order of the names at which their paths first differ. -/
theorem collect_in_order {declared : Node} (ht : Tree.ofNode declared = .ok tree)
    (compress : Bool) :
    ((collect tree compress).directories.map Directory.site).Nodup ∧
    (∀ site, site ∈ (collect tree compress).directories.map Directory.site ↔
      tree.HasSite site ∧ site ≠ tree.rootSite ∧ (site.kind = .container ∨ site.kind = .list) ∧
        site.isElided compress = false) ∧
    ∀ (i j : Nat) (one other : Directory), (collect tree compress).directories[i]? = some one →
      (collect tree compress).directories[j]? = some other →
      (other.site.Under one.site → one.site ≠ other.site → i < j) ∧
      (¬ one.site.Under other.site → ¬ other.site.Under one.site →
        ∃ shared name name' rest rest', one.site.path = shared ++ name :: rest ∧
          other.site.path = shared ++ name' :: rest' ∧ name ≠ name' ∧ (i < j ↔ name < name')) := by
  have hroot := Tree.distinct_root ht
  refine ⟨nodup_collect hroot, fun site => ?_, fun i j one other hi hj => ⟨?_, ?_⟩⟩
  · rw [mem_sites_collect_iff]
    exact and_congr_right isMessage_iff_of_hasSite
  · intro hunder hne
    rcases Nat.lt_trichotomy i j with hlt | rfl | hgt
    · exact hlt
    · cases hi.symm.trans hj
      exact absurd rfl hne
    · exact absurd hunder (precedes_of_lt hroot hj hi hgt).not_under
  · intro hnot hnot'
    rcases Nat.lt_trichotomy i j with hlt | rfl | hgt
    · cases precedes_of_lt hroot hi hj hlt with
      | below h _ => exact absurd h hnot'
      | @apart shared rest rest' name name' hone hother hname =>
          have hless : name < name' := compareOfLessAndEq_eq_lt.1 hname
          have hne : name ≠ name' := fun heq => by simp [heq] at hname
          exact ⟨shared, name, name', rest, rest', hone, hother, hne, iff_of_true hlt hless⟩
    · cases hi.symm.trans hj
      exact absurd .self hnot
    · cases precedes_of_lt hroot hj hi hgt with
      | below h _ => exact absurd h hnot
      | @apart shared rest rest' name name' hother hone hname =>
          have hless : name < name' := compareOfLessAndEq_eq_lt.1 hname
          have hne : name' ≠ name := fun heq => by simp [heq] at hname
          exact ⟨shared, name', name, rest', rest, hone, hother, hne,
            iff_of_false (Nat.lt_asymm hgt) (Std.Asymm.asymm _ _ hless)⟩

theorem collect_in_order_compressed :
    let leaf := Node.leaf "x" .string
    let config := Node.container "config" [Node.container "b" [leaf]]
    let top := Node.container "top" [Node.container "a" [leaf], config]
    let declared := Node.module "m" [top]
    ∃ tree one other, Tree.ofNode declared = .ok tree ∧
      ((collect tree true).directories.map Directory.site).Nodup ∧
      (collect tree true).directories[0]? = some one ∧
      (collect tree true).directories[1]? = some other ∧
      one.path = "/m/top/a" ∧ other.path = "/m/top/config/b" ∧
      ∃ shared name name' rest rest', one.site.path = shared ++ name :: rest ∧
        other.site.path = shared ++ name' :: rest' ∧ name ≠ name' ∧ (0 < 1 ↔ name < name') := by
  intro leaf config top declared
  have htree : Tree.ofNode declared = .ok (Tree.copyOf declared) :=
    Tree.ofNode_eq rfl (by decide +kernel)
  have hfirst := List.getElem?_eq_getElem
    (l := (collect (Tree.copyOf declared) true).directories) (i := 0) (by decide +kernel)
  have hsecond := List.getElem?_eq_getElem
    (l := (collect (Tree.copyOf declared) true).directories) (i := 1) (by decide +kernel)
  obtain ⟨hnodup, _, horder⟩ := collect_in_order htree true
  refine ⟨_, _, _, htree, hnodup, hfirst, hsecond, by decide +kernel, by decide +kernel,
    (horder 0 1 _ _ hfirst hsecond).2 ?_ ?_⟩
  · exact fun hunder => absurd hunder.path_prefix (by decide +kernel)
  · exact fun hunder => absurd hunder.path_prefix (by decide +kernel)

end DirectorySet

end YangToProto

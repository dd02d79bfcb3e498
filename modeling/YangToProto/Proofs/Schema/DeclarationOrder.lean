import Mathlib.Data.List.Perm.Basic
import YangToProto.Proofs.Collection.InStep
import YangToProto.Proofs.Schema.Arena

/-!
# The order of declaration

A declaration is reordered by permuting the children of any of its nodes, any number of times
(`Node.Reordered`). Nothing is wrong with a reordering that is not wrong with the declaration, so it
is accepted as well (`Node.Reordered.exists_ofNode`).

The two trees number their nodes differently. What they have in common is that a site of one matches
a site of the other: node and ancestors are reorderings of one another (`Site.Matches`). Matching
sites have the same path, and going to the children leads to matching sites in the same order,
because name order puts children in step that have been declared in different orders
(`Node.Matches.sortedChildren`).
-/

namespace YangToProto

namespace Node

/-- One node is the other with the children of some nodes, at any depth, in another order. -/
inductive Reordered : Node → Node → Prop where
  | refl (node : Node) : Reordered node node
  | trans {first second third : Node} (h : Reordered first second)
      (h' : Reordered second third) : Reordered first third
  /-- The node's own children are permuted. -/
  | children {name : String} {kind : NodeKind} {key : List String} {type : Option LeafType}
      {before after : List Node} (h : before.Perm after) :
      Reordered ⟨name, kind, key, type, before⟩ ⟨name, kind, key, type, after⟩
  /-- Something is permuted at or below one of the children. -/
  | inside {name : String} {kind : NodeKind} {key : List String} {type : Option LeafType}
      (front back : List Node) {child child' : Node} (h : Reordered child child') :
      Reordered ⟨name, kind, key, type, front ++ child :: back⟩
        ⟨name, kind, key, type, front ++ child' :: back⟩

namespace Reordered

variable {node node' : Node}

/-- Only the children differ. -/
theorem same (h : node.Reordered node') :
    node'.name = node.name ∧ node'.kind = node.kind ∧ node'.key = node.key ∧
      node'.type = node.type := by
  induction h with
  | refl => exact ⟨rfl, rfl, rfl, rfl⟩
  | trans _ _ ih ih' =>
      obtain ⟨hname, hkind, hkey, htype⟩ := ih
      obtain ⟨hname', hkind', hkey', htype'⟩ := ih'
      exact ⟨hname'.trans hname, hkind'.trans hkind, hkey'.trans hkey, htype'.trans htype⟩
  | children => exact ⟨rfl, rfl, rfl, rfl⟩
  | inside => exact ⟨rfl, rfl, rfl, rfl⟩

theorem name_eq (h : node.Reordered node') : node'.name = node.name := h.same.1

theorem kind_eq (h : node.Reordered node') : node'.kind = node.kind := h.same.2.1

theorem key_eq (h : node.Reordered node') : node'.key = node.key := h.same.2.2.1

theorem type_eq (h : node.Reordered node') : node'.type = node.type := h.same.2.2.2

/-- The children are reordered one by one and then put in another order. -/
theorem exists_children (h : node.Reordered node') :
    ∃ middle, List.Forall₂ Reordered node.children middle ∧ middle.Perm node'.children := by
  induction h with
  | refl node => exact ⟨node.children, List.forall₂_same.2 fun child _ => .refl child, .refl _⟩
  | trans _ _ ih ih' =>
      obtain ⟨middle, hall, hperm⟩ := ih
      obtain ⟨middle', hall', hperm'⟩ := ih'
      obtain ⟨between, hbetween, hsame⟩ := List.perm_comp_forall₂ hperm hall'
      exact ⟨between, (forall₂_comp hall hbetween).imp fun _ _ ⟨_, h, h'⟩ => h.trans h',
        hsame.trans hperm'⟩
  | @children _ _ _ _ before _ hperm =>
      exact ⟨before, List.forall₂_same.2 fun child _ => .refl child, hperm⟩
  | inside front back h _ =>
      have hsame : ∀ nodes : List Node, List.Forall₂ Reordered nodes nodes := fun _ =>
        List.forall₂_same.2 fun child _ => .refl child
      exact ⟨_, List.rel_append (hsame front) (.cons h (hsame back)), .refl _⟩

theorem exists_child (h : node.Reordered node') {child' : Node} (hc : child' ∈ node'.children) :
    ∃ child ∈ node.children, child.Reordered child' := by
  obtain ⟨middle, hall, hperm⟩ := h.exists_children
  exact exists_mem_left_of_forall₂ hall (hperm.mem_iff.2 hc)

theorem names_perm (h : node.Reordered node') :
    (node.children.map name).Perm (node'.children.map name) := by
  obtain ⟨middle, hall, hperm⟩ := h.exists_children
  exact map_eq_of_forall₂ (fun _ _ hchild => hchild.name_eq) hall ▸ hperm.map name

/-!
## Reorderings are accepted
-/

theorem acceptable (h : node.Reordered node') (ha : node.Acceptable) : node'.Acceptable where
  typed := by
    rw [h.kind_eq, h.type_eq]
    exact ha.typed
  distinct := h.names_perm.nodup_iff.1 ha.distinct

/-- Every site of the reordering has a counterpart. -/
theorem exists_site {ancestors ancestors' : List Node} (h : node.Reordered node') {site' : Site}
    (hsite : Site.Under ⟨node', ancestors'⟩ site') :
    ∃ site, Site.Under ⟨node, ancestors⟩ site ∧ site.node.Reordered site'.node := by
  induction hsite with
  | self => exact ⟨_, .self, h⟩
  | step _ hc ih =>
      obtain ⟨site, hsite, hreordered⟩ := ih
      obtain ⟨child, hchild, hbelow⟩ := hreordered.exists_child hc
      exact ⟨site.below child, hsite.step hchild, hbelow⟩

theorem exists_ofNode {tree : Tree} (h : node.Reordered node')
    (ht : Tree.ofNode node = .ok tree) : ∃ tree', Tree.ofNode node' = .ok tree' := by
  obtain ⟨hkind, hacceptable⟩ := Tree.exists_ofNode_iff.1 ⟨tree, ht⟩
  refine Tree.exists_ofNode_iff.2 ⟨h.kind_eq.trans hkind, fun site' hsite' => ?_⟩
  obtain ⟨site, hsite, hreordered⟩ := h.exists_site ((mem_sites_iff node').1 hsite')
  exact hreordered.acceptable (hacceptable site ((mem_sites_iff node).2 hsite))

end Reordered

/-!
## Nodes that match
-/

/-- The node and its counterpart in a reordered declaration. -/
structure Matches (node node' : Node) : Prop where
  reordered : node.Reordered node'
  distinct : node.Distinct

namespace Matches

variable {node node' : Node}

/-- Name order puts the children in step. -/
theorem sortedChildren (h : node.Matches node') :
    List.Forall₂ Matches node.sortedChildren node'.sortedChildren := by
  obtain ⟨middle, hall, hperm⟩ := h.reordered.exists_children
  have hnames : middle.map name = node.children.map name :=
    map_eq_of_forall₂ (fun _ _ hchild => hchild.name_eq) hall
  have hmiddle : (middle.map name).Nodup := hnames ▸ h.distinct.names
  have hmatches : List.Forall₂ Matches node.children middle :=
    (forall₂_mem hall).imp fun _ _ ⟨hc, hchild⟩ => ⟨hchild, h.distinct.child hc⟩
  rw [Node.sortedChildren, Node.sortedChildren, ← sortByName_eq_of_perm hmiddle hperm]
  exact forall₂_sortByName (fun _ _ hchild => hchild.reordered.name_eq) hmatches

/-- A name leads to children that match, or to none on both sides. -/
theorem child? (h : node.Matches node') (name : String) :
    Option.Rel Matches (node.child? name) (node'.child? name) := by
  have hdistinct : (node'.children.map Node.name).Nodup :=
    h.reordered.names_perm.nodup_iff.1 h.distinct.names
  rw [Node.child?, Node.child?, ← find?_sortByName h.distinct.names,
    ← find?_sortByName hdistinct]
  exact find?_of_forall₂ (fun _ _ hchild => by rw [hchild.reordered.name_eq]) h.sortedChildren

end Matches

end Node

namespace Site

/-- The site and its counterpart in a reordered declaration. -/
structure Matches (site site' : Site) : Prop where
  node : site.node.Matches site'.node
  ancestors : List.Forall₂ Node.Matches site.ancestors site'.ancestors

namespace Matches

variable {site site' : Site}

theorem name_eq (h : site.Matches site') : site'.name = site.name := h.node.reordered.name_eq

theorem kind_eq (h : site.Matches site') : site'.kind = site.kind := h.node.reordered.kind_eq

theorem path_eq (h : site.Matches site') : site'.path = site.path := by
  rw [path, path, h.node.reordered.name_eq,
    map_eq_of_forall₂ (fun _ _ hnode => hnode.reordered.name_eq) h.ancestors]

theorem pathText_eq (h : site.Matches site') : site'.pathText = site.pathText := by
  rw [pathText, pathText, h.path_eq]

theorem isKeyedList_eq (h : site.Matches site') :
    site'.node.isKeyedList = site.node.isKeyedList := by
  rw [Node.isKeyedList, Node.isKeyedList, h.node.reordered.kind_eq, h.node.reordered.key_eq]

theorem isEmpty_ancestors_eq (h : site.Matches site') :
    site'.ancestors.isEmpty = site.ancestors.isEmpty := by
  have habove := h.ancestors
  generalize site.ancestors = ancestors, site'.ancestors = ancestors' at habove ⊢
  cases habove <;> rfl

theorem below (h : site.Matches site') {child child' : Node} (hc : child.Matches child') :
    (site.below child).Matches (site'.below child') where
  node := hc
  ancestors := .cons h.node h.ancestors

theorem children (h : site.Matches site') :
    List.Forall₂ Matches site.children site'.children := by
  rw [Site.children, Site.children, List.forall₂_map_left_iff, List.forall₂_map_right_iff]
  exact h.node.sortedChildren.imp fun _ _ hc => h.below hc

theorem child? (h : site.Matches site') (name : String) :
    Option.Rel Matches (site.child? name) (site'.child? name) := by
  have hchild := h.node.child? name
  rw [Site.child?, Site.child?]
  generalize site.node.child? name = child, site'.node.child? name = child' at hchild ⊢
  cases hchild with
  | some hc => exact .some (h.below hc)
  | none => exact .none

end Matches

end Site

end YangToProto

import Mathlib.Data.List.Forall2
import Mathlib.Data.List.Nodup
import YangToProto.Schema.Node

/-!
# Name order

`sortByName` puts items in name order. Items of different names come out in one order however they
went in (`sortByName_eq_of_perm`), and strictly increasing (`increasing_sortByName`). It goes along
with maps (`sortByName_map`) and with relations between items of one name (`forall₂_sortByName`).

In a node whose levels have no name twice (`Node.Distinct`) a name belongs to one child.
-/

namespace YangToProto

open Std

variable {α β : Type}

/-! ## Sorting -/

theorem perm_placeByName (name : α → String) (item : α) (items : List α) :
    (placeByName name item items).Perm (item :: items) := by
  induction items with
  | nil => exact .refl _
  | cons other rest ih =>
      rw [placeByName]
      split
      · exact (ih.cons other).trans (.swap item other rest)
      · exact .refl _

theorem perm_sortByName (name : α → String) (items : List α) :
    (sortByName name items).Perm items := by
  induction items with
  | nil => exact .refl _
  | cons item rest ih => exact (perm_placeByName name item _).trans (ih.cons item)

@[simp] theorem mem_sortByName {name : α → String} {items : List α} {item : α} :
    item ∈ sortByName name items ↔ item ∈ items :=
  (perm_sortByName name items).mem_iff

theorem placeByName_map (name : β → String) (f : α → β) (item : α) (items : List α) :
    placeByName name (f item) (items.map f) =
      (placeByName (fun a => name (f a)) item items).map f := by
  induction items with
  | nil => rfl
  | cons other rest ih =>
      rw [List.map_cons, placeByName, placeByName]
      split
      · rw [ih, List.map_cons]
      · rfl

/-- Items are sorted before or after they are mapped. -/
theorem sortByName_map (name : β → String) (f : α → β) (items : List α) :
    sortByName name (items.map f) = (sortByName (fun a => name (f a)) items).map f := by
  induction items with
  | nil => rfl
  | cons item rest ih => rw [List.map_cons, sortByName, ih, placeByName_map, sortByName]

theorem forall₂_placeByName {R : α → β → Prop} {name : α → String} {name' : β → String}
    (hname : ∀ a b, R a b → name' b = name a) {item : α} {item' : β} (hitem : R item item')
    {items : List α} {items' : List β} (h : List.Forall₂ R items items') :
    List.Forall₂ R (placeByName name item items) (placeByName name' item' items') := by
  induction h with
  | nil => exact .cons hitem .nil
  | cons hfirst hrest ih =>
      rw [placeByName, placeByName, hname _ _ hfirst, hname _ _ hitem]
      split
      · exact .cons hfirst ih
      · exact .cons hitem (.cons hfirst hrest)

/-- Items that are related one by one, and then have the same names, stay so when both sides are
sorted. -/
theorem forall₂_sortByName {R : α → β → Prop} {name : α → String} {name' : β → String}
    (hname : ∀ a b, R a b → name' b = name a) {items : List α} {items' : List β}
    (h : List.Forall₂ R items items') :
    List.Forall₂ R (sortByName name items) (sortByName name' items') := by
  induction h with
  | nil => exact .nil
  | cons hfirst _ ih => exact forall₂_placeByName hname hfirst ih

/-- Items in strictly increasing name order. -/
def Increasing (name : α → String) (items : List α) : Prop :=
  items.Pairwise fun one other => compare (name one) (name other) = .lt

theorem increasing_placeByName {name : α → String} {item : α} {items : List α}
    (h : Increasing name items) (hnew : ∀ other ∈ items, name other ≠ name item) :
    Increasing name (placeByName name item items) := by
  induction items with
  | nil => exact List.pairwise_singleton _ _
  | cons other rest ih =>
      obtain ⟨hother, hrest⟩ := List.pairwise_cons.1 h
      rw [placeByName]
      split
      · rename_i hlt
        refine List.pairwise_cons.2 ⟨fun next hnext => ?_,
          ih hrest fun next hnext => hnew next (List.mem_cons_of_mem _ hnext)⟩
        rcases List.mem_cons.1 ((perm_placeByName name item rest).mem_iff.1 hnext) with rfl | hnext
        · exact hlt
        · exact hother next hnext
      · rename_i hnot
        have hgt : compare (name item) (name other) = .lt := by
          cases hc : compare (name other) (name item) with
          | lt => exact absurd hc hnot
          | eq => exact absurd (LawfulEqCmp.eq_of_compare hc) (hnew other List.mem_cons_self)
          | gt => exact OrientedCmp.lt_of_gt hc
        refine List.pairwise_cons.2 ⟨fun next hnext => ?_, h⟩
        rcases List.mem_cons.1 hnext with rfl | hnext
        · exact hgt
        · exact TransCmp.lt_trans hgt (hother next hnext)

theorem increasing_sortByName {name : α → String} {items : List α}
    (h : (items.map name).Nodup) : Increasing name (sortByName name items) := by
  induction items with
  | nil => exact List.Pairwise.nil
  | cons item rest ih =>
      rw [List.map_cons, List.nodup_cons] at h
      refine increasing_placeByName (ih h.2) fun other ho heq => h.1 ?_
      exact heq ▸ List.mem_map_of_mem (mem_sortByName.1 ho)

/-- In increasing order the same items form the same list. -/
theorem Increasing.eq_of_perm {name : α → String} {items items' : List α}
    (h : Increasing name items) (h' : Increasing name items') (hperm : items.Perm items') :
    items = items' :=
  hperm.eq_of_pairwise
    (fun one other _ _ hlt hgt => by simp [OrientedCmp.gt_of_lt hlt] at hgt) h h'

/-- Items of different names are sorted alike in whatever order they come. -/
theorem sortByName_eq_of_perm {name : α → String} {items items' : List α}
    (h : (items.map name).Nodup) (hperm : items.Perm items') :
    sortByName name items = sortByName name items' := by
  refine (increasing_sortByName h).eq_of_perm
    (increasing_sortByName ((hperm.map name).nodup_iff.1 h)) ?_
  exact (perm_sortByName name items).trans (hperm.trans (perm_sortByName name items').symm)

/-- Where names differ, a name belongs to one item. -/
theorem eq_of_name_eq {name : α → String} {items : List α} (h : (items.map name).Nodup)
    {one other : α} (ho : one ∈ items) (ho' : other ∈ items) (hname : name one = name other) :
    one = other :=
  List.inj_on_of_nodup_map h ho ho' hname

/-- Where names differ, looking a name up gives the item of that name. -/
theorem find?_name_eq_some_iff {name : α → String} {items : List α} (h : (items.map name).Nodup)
    {wanted : String} {item : α} :
    items.find? (fun other => name other == wanted) = some item ↔
      item ∈ items ∧ name item = wanted := by
  constructor
  · intro hfound
    exact ⟨List.mem_of_find?_eq_some hfound, by simpa using List.find?_some hfound⟩
  · rintro ⟨hmem, hname⟩
    cases hfound : items.find? fun other => name other == wanted with
    | none => exact absurd (List.find?_eq_none.1 hfound item hmem) (by simp [hname])
    | some found =>
        have hfoundName : name found = wanted := by simpa using List.find?_some hfound
        rw [eq_of_name_eq h (List.mem_of_find?_eq_some hfound) hmem
          (hfoundName.trans hname.symm)]

/-- A name is looked up before or after sorting. -/
theorem find?_sortByName {name : α → String} {items : List α} (h : (items.map name).Nodup)
    (wanted : String) :
    (sortByName name items).find? (fun other => name other == wanted) =
      items.find? fun other => name other == wanted := by
  have hsorted : ((sortByName name items).map name).Nodup :=
    ((perm_sortByName name items).map name).nodup_iff.2 h
  refine Option.ext fun item => ?_
  rw [find?_name_eq_some_iff hsorted, find?_name_eq_some_iff h, mem_sortByName]

/-! ## Siblings of different names -/

namespace Node

mutual

/-- What goes up from the children of a node to the node holds of all nodes. -/
theorem holds_of_children {motive : Node → Prop}
    (step : ∀ node : Node, (∀ child ∈ node.children, motive child) → motive node) (node : Node) :
    motive node := by
  obtain ⟨name, kind, key, type, children⟩ := node
  exact step _ (forall_holds_of_children step children)
termination_by structural node

theorem forall_holds_of_children {motive : Node → Prop}
    (step : ∀ node : Node, (∀ child ∈ node.children, motive child) → motive node)
    (nodes : List Node) : ∀ node ∈ nodes, motive node := by
  cases nodes with
  | nil => exact List.forall_mem_nil _
  | cons node rest =>
      exact List.forall_mem_cons.2
        ⟨holds_of_children step node, forall_holds_of_children step rest⟩
termination_by structural nodes

end

/-- At and below the node no two siblings have one name. -/
inductive Distinct : Node → Prop where
  | intro {node : Node} (names : (node.children.map name).Nodup)
      (below : ∀ child ∈ node.children, Distinct child) : Distinct node

variable {node : Node}

theorem Distinct.names (h : node.Distinct) : (node.children.map name).Nodup := by
  cases h
  assumption

theorem Distinct.child {child : Node} (h : node.Distinct) (hc : child ∈ node.children) :
    child.Distinct := by
  cases h with
  | intro _ hbelow => exact hbelow child hc

@[simp] theorem mem_sortedChildren {child : Node} :
    child ∈ node.sortedChildren ↔ child ∈ node.children :=
  mem_sortByName

theorem Distinct.increasing (h : node.Distinct) : Increasing name node.sortedChildren :=
  increasing_sortByName h.names

theorem child?_eq_some_iff {child : Node} (h : node.Distinct) {name : String} :
    node.child? name = some child ↔ child ∈ node.children ∧ child.name = name :=
  find?_name_eq_some_iff h.names

end Node

end YangToProto

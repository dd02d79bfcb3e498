import YangToProto.Proofs.Proto.LegalNames
import YangToProto.Proofs.Schema.Sites

/-!
# The names in a schema

The names in a tree are those of its nodes, and those of the typedefs and identity bases that lead
to shared enums. Where all of them are names that a schema may use (`Tree.WellNamed`), so are those
of every site, and no name holds a slash.
-/

namespace YangToProto

/-- The typedef or identity base whose name a shared enum is given. An enumeration in place, a
scalar and a union have none. -/
def LeafType.source? (type : LeafType) : Option String :=
  match type.kind with
  | .enumeration _ => if type.isInlineEnum then none else some type.name
  | .identityref base => some base.name
  | .union _ => none
  | .scalar _ => none

namespace Node

def ownNames (node : Node) : List String := node.name :: (node.type.bind LeafType.source?).toList

mutual

def names : Node → List String
  | ⟨name, kind, key, type, children⟩ =>
    ownNames ⟨name, kind, key, type, children⟩ ++ namesAll children

def namesAll : List Node → List String
  | [] => []
  | node :: rest => names node ++ namesAll rest

end

theorem names_eq (node : Node) : node.names = node.ownNames ++ namesAll node.children := by
  obtain ⟨name, kind, key, type, children⟩ := node
  rw [names]

theorem names_subset_namesAll {node : Node} {nodes : List Node} (h : node ∈ nodes) :
    node.names ⊆ namesAll nodes := by
  induction nodes with
  | nil => exact absurd h List.not_mem_nil
  | cons first rest ih =>
      rw [namesAll]
      rcases List.mem_cons.1 h with rfl | h
      · exact List.subset_append_left _ _
      · exact List.Subset.trans (ih h) (List.subset_append_right _ _)

theorem names_subset_of_child {node child : Node} (h : child ∈ node.children) :
    child.names ⊆ node.names := by
  rw [names_eq node]
  exact List.Subset.trans (names_subset_namesAll h) (List.subset_append_right _ _)

end Node

theorem Site.Under.names_subset {top site : Site} (h : top.Under site) :
    site.node.names ⊆ top.node.names := by
  induction h with
  | self => exact List.Subset.refl _
  | step _ hc ih => exact List.Subset.trans (Node.names_subset_of_child hc) ih

namespace Tree

/-- Every name in the tree is one that a schema may use. -/
def WellNamed (tree : Tree) : Prop :=
  ∀ name ∈ tree.root.names, Identifier.isSchemaName name = true

instance (tree : Tree) : Decidable tree.WellNamed :=
  inferInstanceAs (Decidable (∀ name ∈ tree.root.names, Identifier.isSchemaName name = true))

variable {tree : Tree} {site : Site}

theorem WellNamed.ownNames (h : tree.WellNamed) (hsite : tree.HasSite site) :
    ∀ name ∈ site.node.ownNames, Identifier.isSchemaName name = true := by
  intro name hname
  refine h name (Site.Under.names_subset hsite ?_)
  rw [Node.names_eq]
  exact List.mem_append_left _ hname

theorem WellNamed.name (h : tree.WellNamed) (hsite : tree.HasSite site) :
    Identifier.isSchemaName site.name = true :=
  h.ownNames hsite site.name List.mem_cons_self

theorem WellNamed.source (h : tree.WellNamed) (hsite : tree.HasSite site) {type : LeafType}
    (htype : site.node.type = some type) {source : String} (hsource : type.source? = some source) :
    Identifier.isSchemaName source = true := by
  refine h.ownNames hsite source (List.mem_cons_of_mem _ ?_)
  rw [htype, Option.bind_some, hsource]
  exact List.mem_singleton_self _

theorem WellNamed.slashFree (h : tree.WellNamed) : tree.SlashFree := by
  intro site hsite hslash
  have hchars := (Identifier.isSchemaName_iff.1 (h.name hsite)).2 '/' hslash
  exact absurd hchars (by decide)

end Tree

end YangToProto

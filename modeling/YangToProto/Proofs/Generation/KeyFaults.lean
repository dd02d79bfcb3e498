import YangToProto.Proofs.Generation.Diagnostics
import YangToProto.Proofs.Generation.ListKeys
import YangToProto.Proofs.Generation.UnionMapping

/-!
# Bad keys of lists

Keys are looked at where they become fields, which is in the key wrapper beside the message that has
the list as a field. There each key is drafted on its own, so one that is bad (`Site.BadKey`) is
reported whatever else is wrong with the list, the message or the run (`Tree.bad_key_reported`). A
list at the top has no key wrapper, and nor has a list that is a key itself; their keys are not
looked at (`Tree.not_bad_key_reported`).
-/

namespace YangToProto

variable {config : Config} {set : DirectorySet} {tree : Tree} {list leaf : Site} {key : String}
  {registry : Registry} {error : GenerationError}

namespace LeafType

/-- A union without enumerated members whose parts have entries in the plain table, but not all of
them the same. -/
structure Differing (type : LeafType) : Prop where
  henum : type.containsEnum = false
  parts : ∃ members, type.kind = .union members ∧
    (allParts members).find? (lacksEntry .plain) = none ∧
    ∃ one ∈ allParts members, ∃ other ∈ allParts members,
      ScalarTable.plain.kind? one.2 ≠ ScalarTable.plain.kind? other.2

/-- A key of such a type is an error. -/
theorem Differing.mapKey {type : LeafType} (h : type.Differing) (config : Config) (leaf : Site)
    (registry : Registry) :
    type.mapKey config leaf registry =
      (.error (.keyType (pathText leaf.path.dropLast) leaf.name type.name), registry) := by
  obtain ⟨henum, members, hkind, hfind, one, hone, other, hother, hdiffer⟩ := h
  have hnone : ∀ entry, ¬ Uniform .plain (allParts members) entry := fun entry huniform =>
    hdiffer ((huniform.2 one hone).trans (huniform.2 other hother).symm)
  have hunion := (mapUnion_apply .plain leaf type members).2.2.2 hfind (List.ne_nil_of_mem hone)
    hnone
  refine (mapAs_union true hkind henum registry).trans ?_
  rw [tableAs, hunion]
  rfl

end LeafType

namespace Site

/-- What is to be reported of a key of a list that has a key wrapper, if the key is bad. -/
inductive BadKey (compress : Bool) (list : Site) (key : String) : GenerationError → Prop
  /-- The list's message has no field of that name, and the list has no child. -/
  | missing (hfield : (list.fields compress).find? key = none)
      (hchild : list.child? key = none) : BadKey compress list key (.missingKey list.pathText key)
  /-- The list's message has no field of that name, but the list has a child. -/
  | elided {child : Site} (hfield : (list.fields compress).find? key = none)
      (hchild : list.child? key = some child) :
      BadKey compress list key (.keyType list.pathText key "container")
  /-- The field is no leaf. -/
  | branch {field : Site} (hfield : (list.fields compress).find? key = some field)
      (hkind : field.kind ≠ .leaf) :
      BadKey compress list key (.keyType list.pathText key field.kind.keyTypeName)
  /-- The field is a leaf of the list whose type is a union of differing scalars. -/
  | union {leaf : Site} {type : LeafType} (hfield : (list.fields compress).find? key = some leaf)
      (hkind : leaf.kind = .leaf) (hbelow : leaf.parent? = some list)
      (htype : leaf.node.type = some type) (hdiffering : type.Differing) :
      BadKey compress list key (.keyType list.pathText key type.name)

theorem keyLeaf?_eq {compress : Bool}
    (h : set.find? list.pathText = some (Directory.ofSite compress list)) (key : String) :
    list.keyLeaf? set key = ((list.fields compress).find? key).or (list.child? key) := by
  rw [keyLeaf?, h, Option.bind_some, Directory.fields_ofSite]
  cases (list.fields compress).find? key <;> rfl

/-- A child of a message that is not among the fields by name is elided. -/
theorem isElided_of_find?_eq_none {compress : Bool} {child : Site} (hlist : tree.HasSite list)
    (hmessage : list.isMessage compress = true)
    (hfield : (list.fields compress).find? key = none) (hchild : list.child? key = some child) :
    child.isElided compress = true := by
  obtain ⟨node, hnode, rfl⟩ := Option.map_eq_some_iff.1 hchild
  have hname : node.name = key := by simpa using List.find?_some hnode
  have hbelow : tree.HasSite (list.below node) := hlist.step (List.mem_of_find?_eq_some hnode)
  have hholder : (list.below node).holder? compress = some list :=
    holderAmong?_of_isMessage hmessage
  by_contra hkept
  obtain ⟨_, hall⟩ := mem_candidates_of_holder? hbelow hholder
  rw [expand_of_not_isElided _ (Bool.not_eq_true _ ▸ hkept)] at hall
  rw [find?_fields, List.find?_eq_none] at hfield
  exact hfield _ (hall _ List.mem_cons_self) (beq_iff_eq.2 hname)

theorem path_dropLast_of_parent? (h : leaf.parent? = some list) :
    leaf.path.dropLast = list.path := by
  rw [path_of_parent? h, List.dropLast_concat]

/-- A key with a leaf of such a type is an error, which calls the list by the path of the leaf's
parent. -/
theorem keyField_of_differing {type : LeafType}
    (hfield : (list.fields config.compressPaths).find? key = some leaf)
    (hkind : leaf.kind = .leaf) (htype : leaf.node.type = some type)
    (hdiffering : type.Differing)
    (hfind : set.find? list.pathText = some (Directory.ofSite config.compressPaths list))
    (registry : Registry) :
    (list.keyField config set key registry).1 =
      .error (.keyType (YangToProto.pathText leaf.path.dropLast) key type.name) := by
  have hname : leaf.name = key := by
    rw [find?_fields] at hfield
    simpa using List.find?_some hfield
  rw [Site.keyField, keyLeaf?_eq hfind, hfield, Option.some_or]
  dsimp only
  rw [hkind, htype]
  dsimp only
  rw [bind_apply, hdiffering.mapKey, hname]

/-- A bad key is an error in every registry. -/
theorem BadKey.keyField (h : list.BadKey config.compressPaths key error)
    (hlist : tree.HasSite list) (hmessage : list.isMessage config.compressPaths = true)
    (hfind : set.find? list.pathText = some (Directory.ofSite config.compressPaths list))
    (registry : Registry) : (list.keyField config set key registry).1 = .error error := by
  cases h with
  | missing hfield hchild =>
      rw [Site.keyField, keyLeaf?_eq hfind, hfield, hchild]
      rfl
  | @elided child hfield hchild =>
      have helided := isElided_of_find?_eq_none hlist hmessage hfield hchild
      have hkind : child.kind = .container := by
        simp only [isElided, Bool.and_eq_true, beq_iff_eq] at helided
        exact helided.1.2
      rw [Site.keyField, keyLeaf?_eq hfind, hfield, hchild, Option.none_or]
      dsimp only
      rw [hkind]
      rfl
  | @branch field hfield hkind =>
      rw [Site.keyField, keyLeaf?_eq hfind, hfield, Option.some_or]
      dsimp only
      cases hfound : field.kind with
      | leaf => exact absurd hfound hkind
      | _ => rfl
  | @union leaf type hfield hkind hbelow htype hdiffering =>
      rw [keyField_of_differing hfield hkind htype hdiffering hfind,
        path_dropLast_of_parent? hbelow]
      rfl

/-!
## Errors of key wrappers
-/

theorem mem_faultsOf_keyFields {keys : List String} (hkey : key ∈ keys)
    (h : ∀ registry, (list.keyField config set key registry).1 = .error error)
    (registry : Registry) :
    error ∈ (list.keyFields config set keys registry).1.flatMap faultsOf := by
  induction keys generalizing registry with
  | nil => cases hkey
  | cons first rest ih =>
      rw [keyFields_cons, List.flatMap_cons, List.mem_append]
      rcases List.mem_cons.1 hkey with rfl | hkey
      · refine Or.inl ?_
        rw [faultsOf_map, Naming.drafting_apply, h registry]
        exact List.mem_cons_self
      · exact Or.inr (ih hkey _)

/-- A registry that still gives names leads to the keys of a list. -/
theorem mem_faultsOf_keyWrapper (hkey : key ∈ list.node.key)
    (h : ∀ registry, (list.keyField config set key registry).1 = .error error)
    (hfrozen : registry.frozen = false) (package listMessage listPackage : String) :
    error ∈ faultsOf
      (list.keyWrapper config set package listMessage listPackage registry).1 := by
  obtain ⟨name, after, hname, _⟩ :=
    Registry.exists_keyMessageName hfrozen list listMessage package
  rw [keyWrapper, bind_apply, Naming.drafting_apply, hname]
  dsimp only [Except.mapError]
  rw [bind_apply, lift_state_apply]
  dsimp only
  rw [faultsOf_liftM_bind, faultsOf_gather]
  exact mem_faultsOf_keyFields hkey h after

theorem mem_faultsOf_draft (hkeyed : list.node.isKeyedList = true) (hkey : key ∈ list.node.key)
    (h : ∀ registry, (list.keyField config set key registry).1 = .error error)
    (hfrozen : registry.frozen = false) (path package fieldName : String) :
    error ∈ faultsOf (list.draft config set path package fieldName registry).1 := by
  have hkind : list.kind = .list := by
    rw [Node.isKeyedList, Bool.and_eq_true, beq_iff_eq] at hkeyed
    exact hkeyed.1
  obtain ⟨name, middle, hname, hmiddle⟩ :=
    Registry.exists_messageName hfrozen config.compressPaths list
  have hafter := (Registry.frozen_packageFor config.compressPaths list middle).trans hmiddle
  have hreference : (list.messageReference config).drafting registry =
      (.ok (name, (Registry.packageFor config.compressPaths list middle).1),
        (Registry.packageFor config.compressPaths list middle).2) := by
    rw [messageReference, Naming.drafting_apply, bind_apply, hname]
    rfl
  have hwrapper : ∀ listPackage, error ∈ faultsOf (list.keyWrapper config set package name
      listPackage (Registry.packageFor config.compressPaths list middle).2).1 :=
    mem_faultsOf_keyWrapper hkey h hafter package name
  rw [draft, hkind]
  dsimp only
  rw [bind_apply, hreference]
  dsimp only
  rw [if_pos hkeyed, bind_apply]
  have hfault := hwrapper (Registry.packageFor config.compressPaths list middle).1
  generalize list.keyWrapper config set package name _ _ = run at hfault ⊢
  obtain ⟨outcome, ended⟩ := run
  cases outcome with
  | ok wrapper => cases hfault
  | error errors => exact hfault

end Site

namespace Tree

/-- What is wrong with one field fails the run. -/
theorem generate_of_fieldFault (hroot : tree.root.Distinct) (hslash : tree.SlashFree)
    (sources : Sources) (ledger : Ledger) {directory : Directory}
    (hd : directory ∈ (tree.directories config).directories) {field : String × Site}
    (hfield : field ∈ directory.ownFields config.compressPaths)
    (hfault : error ∈ directory.fieldFaults config (tree.directories config) field) :
    ∃ errors, (tree.generate config sources ledger).1 = .error errors ∧ error ∈ errors := by
  obtain ⟨registry, hready, hserves, _⟩ := Registry.exists_ready config (tree.directories config)
  have hall : error ∈ directory.allFieldFaults config (tree.directories config) :=
    List.mem_flatMap.2 ⟨field, hfield, hfault⟩
  have hdirectory : error ∈ directory.faults config (tree.directories config) ledger := by
    rw [Directory.faults, if_neg]
    · exact hall
    · rw [List.isEmpty_iff]
      exact List.ne_nil_of_mem hall
  have hserves : (GenerationState.mk registry ledger).registry.Serves (tree.directories config) :=
    hserves
  obtain ⟨hfaults, _⟩ := DirectorySet.faultsOf_records hroot hslash hserves
  have hgenerate : faultsOf (tree.generate config sources ledger).1 =
      faultsOf ((tree.directories config).records config ⟨registry, ledger⟩).1 := by
    rw [generate, generateRecords]
    dsimp only
    rw [hready, faultsOf_map]
  have hmem : error ∈ faultsOf (tree.generate config sources ledger).1 := by
    rw [hgenerate, hfaults]
    exact List.mem_append_left _ (List.mem_flatMap.2 ⟨directory, hd, hdirectory⟩)
  exact ⟨_, eq_error_of_faultsOf (List.ne_nil_of_mem hmem), hmem⟩

theorem isMessage_of_lists (hkind : list.kind = .list) (hlists : tree.Lists config list) :
    tree.HasSite list ∧ list.isMessage config.compressPaths = true := by
  obtain ⟨directory, hd, hmem⟩ := hlists
  obtain ⟨⟨name, list⟩, hfield, rfl⟩ := List.mem_map.1 hmem
  have hown := DirectorySet.mem_collect_of_field hd (List.mem_filter.1 hfield).1
    (by rw [hkind]; rfl)
  obtain ⟨site, hsite, hmessage, heq⟩ := DirectorySet.mem_collect_iff.1 hown
  obtain rfl : list = site := congrArg Directory.site heq
  exact ⟨hsite, hmessage⟩

/-- What is an error in every registry for a key of a list that some message has as a field is among
the errors of the run. -/
theorem generate_of_keyField (hroot : tree.root.Distinct) (hslash : tree.SlashFree)
    (sources : Sources) (ledger : Ledger) (hkind : list.kind = .list)
    (hlists : tree.Lists config list) (hkey : key ∈ list.node.key)
    (h : ∀ registry,
      (list.keyField config (tree.directories config) key registry).1 = .error error) :
    ∃ errors, (tree.generate config sources ledger).1 = .error errors ∧ error ∈ errors := by
  have hkeyed : list.node.isKeyedList = true := by
    rw [Node.isKeyedList, Bool.and_eq_true, Bool.not_eq_true', List.isEmpty_eq_false_iff]
    exact ⟨beq_iff_eq.2 hkind, List.ne_nil_of_mem hkey⟩
  obtain ⟨directory, hd, hmem⟩ := hlists
  obtain ⟨⟨name, list⟩, hfield, rfl⟩ := List.mem_map.1 hmem
  have hfault : error ∈ directory.fieldFaults config (tree.directories config) (name, list) := by
    rw [Directory.fieldFaults, Directory.draftAlone, bind_apply, lift_state_apply]
    exact Site.mem_faultsOf_draft hkeyed hkey h
      (Registry.frozen_packageFor config.compressPaths directory.site (.cold config)) _ _ _
  exact generate_of_fieldFault hroot hslash sources ledger hd hfield hfault

/-- A bad key of a list that some message has as a field is reported, whatever else is wrong. Of a
key whose leaf has a type of differing scalars this is so wherever below the list the leaf has been
declared. -/
theorem bad_key_reported {declared : Node} {tree : Tree} (htree : Tree.ofNode declared = .ok tree)
    (hslash : tree.SlashFree) (config : Config) (sources : Sources) (ledger : Ledger) {list : Site}
    (hkind : list.kind = .list) (hlists : tree.Lists config list) {key : String}
    (hkey : key ∈ list.node.key) :
    (∀ error, list.BadKey config.compressPaths key error →
      ∃ errors, (tree.generate config sources ledger).1 = .error errors ∧ error ∈ errors) ∧
    ∀ leaf type, (list.fields config.compressPaths).find? key = some leaf → leaf.kind = .leaf →
      leaf.node.type = some type → type.Differing →
      ∃ errors text, (tree.generate config sources ledger).1 = .error errors ∧
        .keyType text key type.name ∈ errors := by
  have hroot := Tree.distinct_root htree
  obtain ⟨hsite, hmessage⟩ := isMessage_of_lists hkind hlists
  have hfind : (tree.directories config).find? list.pathText =
      some (Directory.ofSite config.compressPaths list) :=
    DirectorySet.find?_collect hroot hslash
      (DirectorySet.mem_collect_iff.2 ⟨list, hsite, hmessage, rfl⟩)
  refine ⟨fun error hbad => ?_, fun leaf type hfield hleaf htype hdiffering => ?_⟩
  · exact generate_of_keyField hroot hslash sources ledger hkind hlists hkey
      (hbad.keyField hsite hmessage hfind)
  · obtain ⟨errors, hrun, hmem⟩ := generate_of_keyField hroot hslash sources ledger hkind hlists
      hkey (Site.keyField_of_differing hfield hleaf htype hdiffering hfind)
    exact ⟨errors, _, hrun, hmem⟩

theorem bad_key_reported_missing :
    let other := Node.leaf "other" .string
    let item := Node.list "item" ["id"] [other]
    let top := Node.container "top" [item]
    let declared := Node.module "m" [top]
    let tree := Tree.copyOf declared
    let list : Site := ⟨item, [top, declared]⟩
    Tree.ofNode declared = .ok tree ∧ tree.SlashFree ∧ tree.Lists {} list ∧
      ∃ errors, (tree.generate {} {} ∅).1 = .error errors ∧
        .missingKey "/m/top/item" "id" ∈ errors := by
  intro other item top declared tree list
  have htree : Tree.ofNode declared = .ok tree :=
    Tree.ofNode_eq rfl (by decide +kernel)
  have hslash : tree.SlashFree := Tree.slashFree_of_sites (by decide +kernel)
  have hholder : tree.HasSite ⟨top, [declared]⟩ := Site.Under.self.step List.mem_cons_self
  have hfield : ((Site.mk top [declared]).fields false).find? "item" = some list := by
    rw [Site.find?_fields]
    rfl
  have hlists : tree.Lists {} list :=
    ⟨_, DirectorySet.mem_collect_iff.2 ⟨_, hholder, rfl, rfl⟩, List.mem_map.2 ⟨("item", list),
      List.mem_filter.2 ⟨(SortedMap.mem_entries_iff _ _ _).2 hfield, rfl⟩, rfl⟩⟩
  have hmissing : (list.fields false).find? "id" = none :=
    Option.isNone_iff_eq_none.1 (by decide +kernel)
  obtain ⟨hreported, _⟩ := bad_key_reported htree hslash {} {} ∅ rfl hlists List.mem_cons_self
  obtain ⟨errors, hrun, hmem⟩ := hreported _ (.missing hmissing rfl)
  have hpath : list.pathText = "/m/top/item" := by decide +kernel
  exact ⟨htree, hslash, hlists, errors, hrun, hpath ▸ hmem⟩

end Tree

/-- A declared key of a list of the tree that has no field in the list's message, or one that is no
leaf, or a leaf whose type is a union of differing scalars. -/
structure Tree.DeclaresBadKey (compress : Bool) (tree : Tree) (list : Site) (key : String) :
    Prop where
  htree : Tree.ofNode tree.root = .ok tree
  hlist : tree.HasSite list
  hkind : list.kind = .list
  hkey : key ∈ list.node.key
  hbad : (list.fields compress).find? key = none ∨
    (∃ field, (list.fields compress).find? key = some field ∧ field.kind ≠ .leaf) ∨
    ∃ leaf type, (list.fields compress).find? key = some leaf ∧ leaf.kind = .leaf ∧
      leaf.node.type = some type ∧ type.Differing

/-- Where a bad key is not reported as such: for a list at the top, for a list that is a key itself,
for a list that another field has taken the place of, and where names have slashes; a child that
compression removes is not a missing key, and for a leaf that compression has brought up the list is
called by the path of the removed container. -/
theorem Tree.not_bad_key_reported :
    let x := Node.leaf "x" .string
    let tree : Node → Tree := fun node => .copyOf (.module "m" [node])
    let site : Node → Node → Site := fun node list => ⟨list, [node, .module "m" [node]]⟩
    let run : Config → Node → Except GenerationErrors Output := fun config node =>
      ((tree node).generate config {} ∅).1
    let compressing : Config := { compressPaths := true }
    let item := Node.list "item" ["id"] [x]
    let outer := Node.list "outer" ["item"] [item]
    let holder := Node.container "top" [outer]
    let config := Node.list "item" ["config"] [Node.container "config" [x]]
    let elided := Node.container "top" [config, x]
    let mixed := Node.leaf "id" (.union [.string, .boolean])
    let hoisted := Node.list "item" ["id"] [Node.container "config" [mixed]]
    let hoisting := Node.container "top" [hoisted, x]
    let items := Node.container "items" [item]
    let taken := Node.container "top" [Node.container "item" [x], items]
    let a := Node.container "a" [item]
    let slashed := Node.container "top" [a, Node.container "a/item" [Node.leaf "id" .string]]
    ((tree item).DeclaresBadKey false ⟨item, [.module "m" [item]]⟩ "id" ∧
      ∃ output, run {} item = .ok output) ∧
    ((tree holder).DeclaresBadKey false ⟨item, [outer, holder, .module "m" [holder]]⟩ "id" ∧
      run {} holder = .error [.keyType "/m/top/outer" "item" "list"]) ∧
    ((tree elided).DeclaresBadKey true (site elided config) "config" ∧
      run compressing elided = .error [.keyType "/m/top/item" "config" "container"]) ∧
    ((tree hoisting).DeclaresBadKey true (site hoisting hoisted) "id" ∧
      run compressing hoisting = .error [.keyType "/m/top/item/config" "id" "union"]) ∧
    ((tree taken).DeclaresBadKey true ⟨item, [items, taken, .module "m" [taken]]⟩ "id" ∧
      ∃ output, run compressing taken = .ok output) ∧
    ((tree slashed).DeclaresBadKey false ⟨item, [a, slashed, .module "m" [slashed]]⟩ "id" ∧
      ∃ output, run {} slashed = .ok output) := by
  intro x tree site run compressing item outer holder config elided mixed hoisted hoisting items
    taken a slashed
  have htree : ∀ {node : Node},
      (∀ site ∈ (Node.module "m" [node]).sites [], site.node.Acceptable) →
        Tree.ofNode (tree node).root = .ok (tree node) := Tree.ofNode_eq rfl
  have hnone : ∀ {compress : Bool} {list : Site} {key : String},
      ((list.fields compress).find? key).isNone = true → (list.fields compress).find? key = none :=
    Option.isNone_iff_eq_none.1
  have hdiffering : (LeafType.union [.string, .boolean]).Differing :=
    ⟨rfl, _, rfl, rfl, ("string", .scalar .string), List.mem_cons_self,
      ("boolean", .scalar .boolean), List.mem_cons_of_mem _ List.mem_cons_self, by decide⟩
  have herror : ∀ {outcome : Except GenerationErrors Output} {error : GenerationError},
      faultsOf outcome = [error] → outcome = .error [error] := fun h =>
    h ▸ eq_error_of_faultsOf (h ▸ List.cons_ne_nil _ _)
  let leaf : Site := ⟨mixed, [.container "config" [mixed], hoisted, hoisting,
    .module "m" [hoisting]]⟩
  have hleaf : ((site hoisting hoisted).fields true).find? "id" = some leaf := by
    rw [Site.find?_fields]
    rfl
  refine ⟨⟨⟨htree (by decide +kernel), ?_, rfl, List.mem_cons_self,
        Or.inl (hnone (by decide +kernel))⟩, exists_eq_ok_of_isSome (by decide +kernel)⟩,
    ⟨⟨htree (by decide +kernel), ?_, rfl, List.mem_cons_self,
        Or.inl (hnone (by decide +kernel))⟩, herror (by decide +kernel)⟩,
    ⟨⟨htree (by decide +kernel), ?_, rfl, List.mem_cons_self,
        Or.inl (hnone (by decide +kernel))⟩, herror (by decide +kernel)⟩,
    ⟨⟨htree (by decide +kernel), ?_, rfl, List.mem_cons_self,
        Or.inr (Or.inr ⟨leaf, _, hleaf, rfl, rfl, hdiffering⟩)⟩, herror (by decide +kernel)⟩,
    ⟨⟨htree (by decide +kernel), ?_, rfl, List.mem_cons_self,
        Or.inl (hnone (by decide +kernel))⟩, exists_eq_ok_of_isSome (by decide +kernel)⟩,
    ⟨⟨htree (by decide +kernel), ?_, rfl, List.mem_cons_self,
        Or.inl (hnone (by decide +kernel))⟩, exists_eq_ok_of_isSome (by decide +kernel)⟩⟩
  · exact Site.Under.self.step List.mem_cons_self
  · exact ((Site.Under.self.step List.mem_cons_self).step List.mem_cons_self).step
      List.mem_cons_self
  · exact (Site.Under.self.step List.mem_cons_self).step List.mem_cons_self
  · exact (Site.Under.self.step List.mem_cons_self).step List.mem_cons_self
  · exact ((Site.Under.self.step List.mem_cons_self).step
      (List.mem_cons_of_mem _ List.mem_cons_self)).step List.mem_cons_self
  · exact ((Site.Under.self.step List.mem_cons_self).step List.mem_cons_self).step
      List.mem_cons_self

end YangToProto

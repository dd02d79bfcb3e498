import YangToProto.Generation.Run
import YangToProto.Proofs.Generation.Directories
import YangToProto.Proofs.Generation.UnionParts
import YangToProto.Proofs.Naming.PackageSharing
import YangToProto.Proofs.Schema.DeclarationOrder

/-!
# Runs on a reordered declaration

Two runs go through a tree and through one whose declaration is a reordering. All the way their
sites match (`Site.Matches`). What a step reads of a site is the same for matching sites: its path,
its name and kind, its type, whether compression removes it. Where a step goes on to other sites, to
those above, to those that stay below or to the fields of a directory, these match in turn. So the
directories of both trees are in step (`DirectorySet.matches_collect`), each step of naming and of
drafting does the same for both, and the files, the errors in their order and the ledger are the
same (`Tree.generate_eq_of_reordered`).
-/

namespace YangToProto

open List (Forall₂)

/-!
## Going up and down
-/

namespace Site

variable {site site' : Site} (compress : Bool)

namespace Matches

theorem isConfigOrState_eq (h : site.Matches site') :
    site'.isConfigOrState = site.isConfigOrState := by
  have habove := h.ancestors
  rw [isConfigOrState, isConfigOrState, h.name_eq]
  generalize site.ancestors = ancestors, site'.ancestors = ancestors' at habove ⊢
  cases habove with
  | nil => rfl
  | cons hparent _ =>
      dsimp only
      rw [hparent.reordered.kind_eq]

theorem surroundsList_eq (h : site.Matches site') : site'.surroundsList = site.surroundsList := by
  obtain ⟨middle, hall, hperm⟩ := h.node.reordered.exists_children
  have hlength := hall.length_eq.trans hperm.length_eq
  rw [surroundsList, surroundsList]
  generalize site.node.children = nodes, site'.node.children = nodes' at hall hperm hlength ⊢
  match nodes, nodes', hlength with
  | [], [], _ => rfl
  | [child], [child'], _ =>
      cases hall with
      | cons hchild hrest =>
          cases hrest
          cases List.singleton_perm_singleton.1 hperm
          exact congrArg (· == NodeKind.list) hchild.kind_eq
  | _ :: _ :: _, _ :: _ :: _, _ => rfl

theorem isElided_eq (h : site.Matches site') :
    site'.isElided compress = site.isElided compress := by
  rw [isElided, isElided, h.kind_eq, h.isConfigOrState_eq, h.surroundsList_eq]

theorem rank_eq (h : site.Matches site') : site'.rank compress = site.rank compress := by
  rw [rank, rank, h.isElided_eq, h.surroundsList_eq, h.name_eq]

end Matches

/-- The walks up to the nearest message lead to sites that match, or both lead nowhere. -/
theorem matches_holderAmong? {above above' : List Node} (h : Forall₂ Node.Matches above above') :
    Option.Rel Matches (holderAmong? compress above) (holderAmong? compress above') := by
  induction h with
  | nil => exact .none
  | @cons node node' above above' hnode habove ih =>
      have hsite : Matches ⟨node, above⟩ ⟨node', above'⟩ := ⟨hnode, habove⟩
      cases habove with
      | nil => exact .none
      | cons hparent habove =>
          rw [holderAmong?_cons _ (List.cons_ne_nil _ _),
            holderAmong?_cons _ (List.cons_ne_nil _ _), hsite.isElided_eq]
          split
          · exact ih
          · exact .some hsite

theorem forall₂_keptAmong {above above' : List Node} (h : Forall₂ Node.Matches above above') :
    Forall₂ Matches (keptAmong compress above) (keptAmong compress above') := by
  induction h with
  | nil => exact .nil
  | @cons node node' above above' hnode habove ih =>
      have hsite : Matches ⟨node, above⟩ ⟨node', above'⟩ := ⟨hnode, habove⟩
      cases habove with
      | nil => exact .nil
      | cons hparent habove =>
          rw [keptAmong_cons _ (List.cons_ne_nil _ _), keptAmong_cons _ (List.cons_ne_nil _ _),
            hsite.isElided_eq]
          split
          · exact ih
          · exact .cons hsite ih

theorem Matches.isSome_holder?_eq (h : site.Matches site') :
    (site'.holder? compress).isSome = (site.holder? compress).isSome := by
  have hholder := matches_holderAmong? compress h.ancestors
  rw [holder?, holder?]
  generalize holderAmong? compress site.ancestors = holder,
    holderAmong? compress site'.ancestors = holder' at hholder ⊢
  cases hholder <;> rfl

theorem Matches.anchor_eq (h : site.Matches site') :
    site'.anchor compress = site.anchor compress := by
  have hkept := forall₂_keptAmong compress h.ancestors
  rw [anchor, anchor]
  generalize keptAmong compress site.ancestors = kept, keptAmong compress site'.ancestors = kept'
    at hkept ⊢
  cases hkept with
  | nil => rfl
  | cons hfirst _ =>
      dsimp only [List.head?_cons, Option.map_some]
      rw [hfirst.pathText_eq]

theorem Matches.packageCandidate_eq (h : site.Matches site') (basePackage : String) :
    site'.packageCandidate compress basePackage = site.packageCandidate compress basePackage := by
  rw [packageCandidate, packageCandidate, map_eq_of_forall₂
    (fun _ _ hkept => congrArg Identifier.sanitize hkept.name_eq)
    (forall₂_keptAmong compress h.ancestors)]

/-- What matching sites contribute as fields is in step. -/
theorem forall₂_expand (node : Node) {node' : Node} {ancestors ancestors' : List Node}
    (h : Matches ⟨node, ancestors⟩ ⟨node', ancestors'⟩) :
    Forall₂ Matches (expand compress ancestors node) (expand compress ancestors' node') := by
  induction node using Node.holds_of_children generalizing node' ancestors ancestors' with
  | step node ih =>
      rw [expand_eq ⟨node, ancestors⟩, expand_eq ⟨node', ancestors'⟩, h.isElided_eq]
      split
      · refine List.rel_flatMap (forall₂_mem h.children) ?_
        rintro child child' ⟨hchild, hmatches⟩
        obtain ⟨below, hc, rfl⟩ := mem_children_iff.1 hchild
        exact ih below hc hmatches
      · exact .cons h .nil

theorem forall₂_fieldsOfRank (h : site.Matches site') (rank : Nat) :
    Forall₂ Matches (site.fieldsOfRank compress rank) (site'.fieldsOfRank compress rank) := by
  rw [fieldsOfRank, fieldsOfRank]
  refine List.rel_flatMap (List.rel_filter (fun _ _ hchild => ?_) h.children)
    fun child _ hchild => forall₂_expand compress child.node hchild
  simp only [hchild.rank_eq]

theorem inStep_foldl_insertNew {sites sites' : List Site} (h : Forall₂ Matches sites sites')
    {found found' : SortedMap String Site} (hfound : found.InStep Matches found') :
    (sites.foldl (fun found field => found.insertNew field.name field) found).InStep Matches
      (sites'.foldl (fun found field => found.insertNew field.name field) found') := by
  induction h generalizing found found' with
  | nil => exact hfound
  | cons hsite _ ih =>
      rw [List.foldl_cons, List.foldl_cons, hsite.name_eq]
      exact ih (hfound.insertNew _ hsite)

theorem inStep_fields (h : site.Matches site') :
    (site.fields compress).InStep Matches (site'.fields compress) := by
  rw [fields, fields]
  refine inStep_foldl_insertNew (List.rel_flatMap (List.forall₂_same.2 fun _ _ => rfl) ?_) .nil
  rintro rank _ rfl
  exact forall₂_fieldsOfRank compress h rank

end Site

/-!
## Directories
-/

/-- The directory and its counterpart in the tree of a reordered declaration. -/
structure Directory.Matches (directory directory' : Directory) : Prop where
  site : directory.site.Matches directory'.site
  path : directory'.path = directory.path
  fields : directory.fields.InStep Site.Matches directory'.fields

theorem Directory.matches_ofSite (compress : Bool) {site site' : Site} (h : site.Matches site') :
    (Directory.ofSite compress site).Matches (Directory.ofSite compress site') :=
  ⟨h, h.pathText_eq, Site.inStep_fields compress h⟩

theorem Site.Matches.isMessage_eq {site site' : Site} (h : site.Matches site') (compress : Bool) :
    site'.isMessage compress = site.isMessage compress := by
  rw [isMessage, isMessage, h.isEmpty_ancestors_eq, h.kind_eq, h.isElided_eq]

theorem Site.forall₂_directories (compress : Bool) (node : Node) {node' : Node}
    {ancestors ancestors' : List Node} (h : Matches ⟨node, ancestors⟩ ⟨node', ancestors'⟩) :
    Forall₂ Directory.Matches (directories compress ancestors node)
      (directories compress ancestors' node') := by
  induction node using Node.holds_of_children generalizing node' ancestors ancestors' with
  | step node ih =>
      rw [directories_eq ⟨node, ancestors⟩, directories_eq ⟨node', ancestors'⟩, h.isMessage_eq]
      refine List.rel_append (List.rel_flatMap (forall₂_mem h.children) ?_) ?_
      · rintro child child' ⟨hchild, hmatches⟩
        obtain ⟨below, hc, rfl⟩ := mem_children_iff.1 hchild
        exact ih below hc hmatches
      · split
        · exact .cons (Directory.matches_ofSite compress h) .nil
        · exact .nil

/-- The directories of both trees are in step. -/
def DirectorySet.Matches (set set' : DirectorySet) : Prop :=
  Forall₂ Directory.Matches set.directories set'.directories

theorem DirectorySet.matches_collect {tree tree' : Tree} (h : tree.rootSite.Matches tree'.rootSite)
    (compress : Bool) : (collect tree compress).Matches (collect tree' compress) :=
  Site.forall₂_directories compress tree.root h

theorem DirectorySet.Matches.find? {set set' : DirectorySet} (h : set.Matches set')
    (path : String) : Option.Rel Directory.Matches (set.find? path) (set'.find? path) :=
  find?_of_forall₂ (fun _ _ hd => by rw [hd.path]) (List.forall₂_reverse_iff.2 h)

/-!
## Names
-/

namespace Registry

variable {site site' list list' : Site} {config : Config} {set set' : DirectorySet}

theorem packageFor_of_matches (h : site.Matches site') (compress : Bool) :
    packageFor compress site' = packageFor compress site := by
  funext registry
  rw [packageFor, packageFor, h.anchor_eq, h.packageCandidate_eq]

theorem messageName_of_matches (h : site.Matches site') (compress : Bool) :
    messageName compress site' = messageName compress site := by
  rw [messageName, messageName, h.pathText_eq, h.name_eq, packageFor_of_matches h]

theorem keyMessageName_of_matches (h : list.Matches list') (listMessage package : String) :
    keyMessageName list' listMessage package = keyMessageName list listMessage package := by
  rw [keyMessageName, keyMessageName, h.pathText_eq]

theorem nameMessages_of_matches (compress : Bool) {directories directories' : List Directory}
    (h : Forall₂ Directory.Matches directories directories') :
    nameMessages compress directories' = nameMessages compress directories := by
  induction h with
  | nil => rfl
  | cons hd _ ih => rw [nameMessages, nameMessages, messageName_of_matches hd.site, ih]

theorem nameKeysOf_of_matches (compress : Bool) (package : String) {fields fields' : List Site}
    (h : Forall₂ Site.Matches fields fields') :
    nameKeysOf compress package fields' = nameKeysOf compress package fields := by
  induction h with
  | nil => rfl
  | cons hfield _ ih =>
      rw [nameKeysOf, nameKeysOf, hfield.isKeyedList_eq, messageName_of_matches hfield, ih]
      simp only [keyMessageName_of_matches hfield]

theorem nameKeys_of_matches (compress : Bool) {directories directories' : List Directory}
    (h : Forall₂ Directory.Matches directories directories') :
    nameKeys compress directories' = nameKeys compress directories := by
  induction h with
  | nil => rfl
  | cons hd _ ih =>
      rw [nameKeys, nameKeys, packageFor_of_matches hd.site, ih]
      simp only [nameKeysOf_of_matches _ _ hd.fields.values]

/-- The names that the directories need are given in advance alike. -/
theorem ready_of_matches (h : set.Matches set') : ready config set' = ready config set := by
  rw [ready, ready, prepopulate, prepopulate, nameMessages_of_matches _ h, nameKeys_of_matches _ h]

end Registry

/-!
## Types of fields
-/

namespace LeafType

variable {leaf leaf' : Site} {config : Config} {table : ScalarTable}

theorem unsupported_of_matches (h : leaf.Matches leaf') (typeName : String) :
    unsupported leaf' typeName = unsupported leaf typeName := by
  rw [unsupported, unsupported, h.pathText_eq]

theorem addPart_of_matches (h : leaf.Matches leaf') : addPart table leaf' = addPart table leaf := by
  funext found part
  rw [addPart, addPart, unsupported_of_matches h]

theorem mapUnion_of_matches (h : leaf.Matches leaf') (type : LeafType) (members : List LeafType) :
    mapUnion table leaf' type members = mapUnion table leaf type members := by
  rw [mapUnion, mapUnion, addAllScalars_eq, addAllScalars_eq, addPart_of_matches h,
    unsupported_of_matches h]

theorem mapShared_of_matches (h : leaf.Matches leaf') (type : LeafType) :
    mapShared config leaf' type = mapShared config leaf type := by
  rw [mapShared, mapShared, h.pathText_eq]

theorem resolve_of_matches (h : leaf.Matches leaf') (type : LeafType) :
    type.resolve config table leaf' = type.resolve config table leaf := by
  rw [resolve, resolve, mapShared_of_matches h, h.name_eq, unsupported_of_matches h]
  simp only [mapUnion_of_matches h]

theorem mapKey_of_matches (h : leaf.Matches leaf') (type : LeafType) :
    type.mapKey config leaf' = type.mapKey config leaf := by
  rw [mapKey, mapKey, resolve_of_matches h, h.path_eq, h.name_eq]

end LeafType

/-!
## Drafts
-/

namespace Site

variable {site site' leaf leaf' list list' field field' : Site} {config : Config}
  {set set' : DirectorySet}

theorem fieldType_of_matches (h : leaf.Matches leaf') (type : LeafType) (mapped : MappedType) :
    leaf'.fieldType type mapped = leaf.fieldType type mapped := by
  rw [fieldType, fieldType, h.pathText_eq]

theorem leafField_of_matches (h : leaf.Matches leaf') :
    leaf'.leafField config = leaf.leafField config := by
  rw [leafField, leafField, h.node.reordered.type_eq, h.pathText_eq]
  cases leaf.node.type with
  | none => rfl
  | some type =>
      dsimp only
      rw [LeafType.mapValue, LeafType.mapValue, LeafType.resolve_of_matches h]
      simp only [fieldType_of_matches h]

theorem messageReference_of_matches (h : site.Matches site') :
    site'.messageReference config = site.messageReference config := by
  rw [messageReference, messageReference, Registry.messageName_of_matches h,
    Registry.packageFor_of_matches h]

/-- A key names leaves that match, or none in both trees. -/
theorem matches_keyLeaf? (hset : set.Matches set') (h : list.Matches list') (key : String) :
    Option.Rel Matches (list.keyLeaf? set key) (list'.keyLeaf? set' key) := by
  have hfield : Option.Rel Matches ((set.find? list.pathText).bind (·.fields.find? key))
      ((set'.find? list.pathText).bind (·.fields.find? key)) := by
    have hfind := hset.find? list.pathText
    generalize set.find? list.pathText = found, set'.find? list.pathText = found' at hfind ⊢
    cases hfind with
    | none => exact .none
    | some hd => exact hd.fields.find? key
  rw [keyLeaf?, keyLeaf?, h.pathText_eq]
  generalize (set.find? list.pathText).bind (·.fields.find? key) = found,
    (set'.find? list.pathText).bind (·.fields.find? key) = found' at hfield ⊢
  cases hfield with
  | none => exact h.child? key
  | some hleaf => exact .some hleaf

theorem keyField_of_matches (hset : set.Matches set') (h : list.Matches list') (key : String) :
    list'.keyField config set' key = list.keyField config set key := by
  have hleaf := matches_keyLeaf? hset h key
  rw [keyField, keyField, h.pathText_eq]
  generalize list.keyLeaf? set key = leaf, list'.keyLeaf? set' key = leaf' at hleaf ⊢
  cases hleaf with
  | none => rfl
  | some hleaf =>
      dsimp only
      rw [hleaf.kind_eq, hleaf.node.reordered.type_eq]
      simp only [LeafType.mapKey_of_matches hleaf, fieldType_of_matches hleaf]

theorem keyFields_of_matches (hset : set.Matches set') (h : list.Matches list')
    (keys : List String) :
    list'.keyFields config set' keys = list.keyFields config set keys := by
  induction keys with
  | nil => rfl
  | cons key rest ih => rw [keyFields, keyFields, keyField_of_matches hset h, ih]

theorem keyWrapper_of_matches (hset : set.Matches set') (h : list.Matches list')
    (package listMessage listPackage : String) :
    list'.keyWrapper config set' package listMessage listPackage =
      list.keyWrapper config set package listMessage listPackage := by
  rw [keyWrapper, keyWrapper, Registry.keyMessageName_of_matches h, h.node.reordered.key_eq,
    keyFields_of_matches hset h, h.name_eq, h.pathText_eq]

theorem draft_of_matches (hset : set.Matches set') (h : field.Matches field')
    (path package name : String) :
    field'.draft config set' path package name = field.draft config set path package name := by
  have hoption : field'.pathOption = field.pathOption := by
    unfold pathOption
    rw [h.pathText_eq]
  rw [draft, draft, h.kind_eq, hoption]
  cases field.kind with
  | list =>
      dsimp only
      rw [messageReference_of_matches h, h.isKeyedList_eq]
      simp only [keyWrapper_of_matches hset h]
  | container =>
      dsimp only
      rw [messageReference_of_matches h]
  | leaf | leafList =>
      dsimp only
      rw [leafField_of_matches h]
  | module | anydata => rfl

theorem drafts_of_matches (hset : set.Matches set') (path package : String)
    {fields fields' : List (String × Site)}
    (h : Forall₂ (fun field field' => field'.1 = field.1 ∧ field.2.Matches field'.2)
      fields fields') :
    drafts config set' path package fields' = drafts config set path package fields := by
  induction h with
  | nil => rfl
  | cons hfield _ ih =>
      rw [drafts, drafts, hfield.1, draft_of_matches hset hfield.2, ih]

end Site

namespace Directory

variable {directory directory' : Directory} {config : Config} {set set' : DirectorySet}

theorem Matches.ownFields (h : directory.Matches directory') (compress : Bool) :
    Forall₂ (fun field field' => field'.1 = field.1 ∧ field.2.Matches field'.2)
      (directory.ownFields compress) (directory'.ownFields compress) := by
  have hmoves : directory'.movesKeys compress = directory.movesKeys compress := by
    rw [movesKeys, movesKeys, h.site.isKeyedList_eq, h.site.isSome_holder?_eq]
  rw [Directory.ownFields, Directory.ownFields, hmoves, h.site.node.reordered.key_eq]
  refine List.rel_filter (fun _ _ hfield => ?_) h.fields
  simp only [hfield.1]

theorem draft_of_matches (hset : set.Matches set') (h : directory.Matches directory') :
    directory'.draft config set' = directory.draft config set := by
  rw [draft, draft, Registry.messageName_of_matches h.site, Registry.packageFor_of_matches h.site,
    h.path]
  simp only [Site.drafts_of_matches hset _ _ (h.ownFields config.compressPaths)]

theorem messages_of_matches (hset : set.Matches set') (h : directory.Matches directory') :
    directory'.messages config set' = directory.messages config set := by
  funext state
  rw [messages, messages, draft_of_matches hset h]

end Directory

/-!
## Runs
-/

namespace DirectorySet

variable {config : Config} {set set' : DirectorySet}

theorem messageGroup_of_matches (hset : set.Matches set') {site site' : Site}
    (h : site.Matches site') :
    site'.messageGroup config set' = site.messageGroup config set := by
  have hempty : site'.ancestors.isEmpty = site.ancestors.isEmpty := h.isEmpty_ancestors_eq
  have hfind := hset.find? site.pathText
  funext state
  rw [Site.messageGroup, Site.messageGroup, hempty, h.pathText_eq,
    Registry.packageFor_of_matches h]
  generalize set.find? site.pathText = found, set'.find? site.pathText = found' at hfind ⊢
  cases hfind with
  | none => rfl
  | some hd =>
      dsimp only
      rw [Directory.messages_of_matches hset hd]

theorem messageGroups_of_matches (hset : set.Matches set')
    {directories directories' : List Directory}
    (h : Forall₂ Directory.Matches directories directories') (state : GenerationState) :
    set'.messageGroups config directories' state = set.messageGroups config directories state := by
  induction h generalizing state with
  | nil => rfl
  | cons hd _ ih =>
      rw [messageGroups, messageGroups, messageGroup_of_matches hset hd.site]
      simp only [ih]

theorem records_of_matches (hset : set.Matches set') :
    set'.records config = set.records config := by
  funext state
  rw [records, records, messageGroups_of_matches hset hset]

end DirectorySet

namespace Tree

/-- The module's sites match in the trees of a declaration and of a reordering. -/
theorem matches_rootSite {declared declared' : Node} (h : declared.Reordered declared')
    {tree tree' : Tree} (ht : ofNode declared = .ok tree) (ht' : ofNode declared' = .ok tree') :
    tree.rootSite.Matches tree'.rootSite := by
  have hroot : tree.root.Matches tree'.root :=
    ⟨root_eq ht ▸ root_eq ht' ▸ h, distinct_root ht⟩
  exact ⟨hroot, .nil⟩

/-- Reordering the declaration of a tree changes nothing that a run shows: neither the files nor
the errors nor the ledger. -/
theorem generate_eq_of_reordered {declared declared' : Node} (h : declared.Reordered declared')
    {tree : Tree} (ht : ofNode declared = .ok tree) :
    ∃ tree', ofNode declared' = .ok tree' ∧
      ∀ (config : Config) (sources : Sources) (ledger : Ledger),
        tree'.generate config sources ledger = tree.generate config sources ledger := by
  obtain ⟨tree', ht'⟩ := h.exists_ofNode ht
  refine ⟨tree', ht', fun config sources ledger => ?_⟩
  have hset : (tree.directories config).Matches (tree'.directories config) :=
    DirectorySet.matches_collect (matches_rootSite h ht ht') config.compressPaths
  rw [generate, generate, generateRecords, generateRecords, Registry.ready_of_matches hset,
    DirectorySet.records_of_matches hset]

theorem generate_eq_of_reordered_two_levels :
    let one := Node.leaf "a" .string
    let other := Node.leaf "b" .boolean
    let declared := Node.module "m" [Node.container "top" [one, other], one]
    let declared' := Node.module "m" [one, Node.container "top" [other, one]]
    declared.Reordered declared' ∧ ∃ tree, ofNode declared = .ok tree ∧
      ∃ tree', ofNode declared' = .ok tree' ∧
        ∀ (config : Config) (sources : Sources) (ledger : Ledger),
          tree'.generate config sources ledger = tree.generate config sources ledger := by
  intro one other declared declared'
  have hinside : declared.Reordered (Node.module "m" [Node.container "top" [other, one], one]) :=
    .inside [] [one] (.children (List.Perm.swap other one []))
  have hreordered : declared.Reordered declared' :=
    hinside.trans (.children (List.Perm.swap one (Node.container "top" [other, one]) []))
  have htree : ofNode declared = .ok (copyOf declared) := ofNode_eq rfl (by decide +kernel)
  exact ⟨hreordered, _, htree, generate_eq_of_reordered hreordered htree⟩

end Tree

end YangToProto

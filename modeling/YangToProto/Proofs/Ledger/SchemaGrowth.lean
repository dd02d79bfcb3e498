import YangToProto.Proofs.Generation.FieldNames

/-!
# Tags in a growing schema

The ledger knows fields by their proto names. A name depends on the siblings that come before, so a
node may get another one when the schema grows, and then it gets another tag.

Over two runs the tags follow the nodes exactly when the names do (`Tree.tags_follow_nodes_iff`).
-/

namespace YangToProto

/-- A node gains a leaf below it, at any depth: the leaf stands among the children of a container
or list. -/
inductive Node.GainsLeaf : Node → Node → Prop where
  | here {name : String} {kind : NodeKind} {key : List String} {type : Option LeafType}
      (front back : List Node) {leaf : Node} (hkind : kind.isDirectory = true)
      (hleaf : leaf.kind = .leaf) :
      GainsLeaf ⟨name, kind, key, type, front ++ back⟩
        ⟨name, kind, key, type, front ++ leaf :: back⟩
  | inside {name : String} {kind : NodeKind} {key : List String} {type : Option LeafType}
      (front back : List Node) {child child' : Node} (h : GainsLeaf child child') :
      GainsLeaf ⟨name, kind, key, type, front ++ child :: back⟩
        ⟨name, kind, key, type, front ++ child' :: back⟩

/-- The paths of the nodes that are fields in the message of a directory, in order. -/
def Directory.nodes (compress : Bool) (directory : Directory) : List (List String) :=
  (directory.ownFields compress).map fun field => field.2.path

/-- The node at a path is a field of the message at a path and gets the name there. -/
def Tree.NamesField (config : Config) (tree : Tree) (messagePath : String) (node : List String)
    (name : String) : Prop :=
  ∃ directory, (tree.directories config).find? messagePath = some directory ∧
    (node, name) ∈ (directory.nodes config.compressPaths).zip
      (directory.protoNames config.compressPaths)

instance (config : Config) (tree : Tree) (messagePath : String) (node : List String)
    (name : String) : Decidable (tree.NamesField config messagePath node name) :=
  decidable_of_iff
    (((tree.directories config).find? messagePath).any fun directory =>
      decide ((node, name) ∈ (directory.nodes config.compressPaths).zip
        (directory.protoNames config.compressPaths)))
    (by simp only [Option.any_eq_true, decide_eq_true_iff]; rfl)

/-- The message at a path has been emitted with the field for the node at a path. -/
def GeneratedRecords.EmitsField (config : Config) (tree : Tree) (records : GeneratedRecords)
    (messagePath : String) (node : List String) (field : Field) : Prop :=
  ∃ directory, (tree.directories config).find? messagePath = some directory ∧
    ∃ group ∈ records.groups, ∃ message ∈ group.messages, message.kind = .directory ∧
      message.schemaPath = messagePath ∧
      (node, field) ∈ (directory.nodes config.compressPaths).zip message.fields

/-- Nodes that are fields of a message in both trees have the same name in both. -/
def Tree.NamesFollowNodes (config : Config) (tree tree' : Tree) : Prop :=
  ∀ messagePath node name name', tree.NamesField config messagePath node name →
    tree'.NamesField config messagePath node name' → name = name'

/-- Nodes that are emitted as fields of a message in both runs have the same tag in both. -/
def Tree.TagsFollowNodes (config : Config) (tree tree' : Tree)
    (records records' : GeneratedRecords) : Prop :=
  ∀ messagePath node field field', records.EmitsField config tree messagePath node field →
    records'.EmitsField config tree' messagePath node field' → field.tag = field'.tag

variable {config : Config} {tree tree' : Tree} {records records' : GeneratedRecords}
  {ledger middle last : Ledger} {messagePath : String} {node : List String}

/-!
## One run
-/

theorem Message.Tagged.tag?_eq {compress : Bool} {directory : Directory} {message : Message}
    (h : message.Tagged compress ledger directory) {field : Field}
    (hfield : field ∈ message.fields) :
    ledger.tag? message.schemaPath field.name = some field.tag := by
  have htags := h.tags
  rw [← h.names, List.map_map, List.map_inj_left] at htags
  exact (htags field hfield).symm

/-- An emitted field has the name of its node and the tag that the ledger has for that name. -/
theorem Tree.name_and_tag_of_emitsField
    (h : tree.generateRecords config ledger = (.ok records, last))
    {field : Field} (hfield : records.EmitsField config tree messagePath node field) :
    tree.NamesField config messagePath node field.name ∧
      last.tag? messagePath field.name = some field.tag := by
  obtain ⟨directory, hfind, group, hgroup, message, hmessage, hkind, rfl, hmem⟩ := hfield
  obtain ⟨found, hfound, htagged⟩ :=
    (Tree.tagged_generateRecords h).1 group hgroup message hmessage hkind
  obtain rfl : directory = found := Option.some.inj (hfind.symm.trans hfound)
  refine ⟨⟨directory, hfind, ?_⟩, htagged.tag?_eq (List.of_mem_zip hmem).2⟩
  rw [← htagged.names, List.zip_map_right]
  exact List.mem_map.2 ⟨(node, field), hmem, rfl⟩

/-- Every node that gets a name in a message is emitted there. -/
theorem Tree.exists_emitsField (h : tree.generateRecords config ledger = (.ok records, last))
    {name : String} (hname : tree.NamesField config messagePath node name) :
    ∃ field, records.EmitsField config tree messagePath node field ∧ field.name = name := by
  obtain ⟨directory, hfind, hmem⟩ := hname
  obtain ⟨htags, hmessages⟩ := Tree.tagged_generateRecords h
  have hd := List.mem_reverse.1 (List.mem_of_find?_eq_some hfind)
  have hpath : directory.site.pathText = messagePath := by
    obtain ⟨site, _, _, rfl⟩ := DirectorySet.mem_collect_iff.1 hd
    exact DirectorySet.path_eq_of_find? hfind
  obtain ⟨group, hgroup, message, hmessage, hkind, hschema⟩ := hmessages directory hd
  rw [hpath] at hschema
  obtain ⟨found, hfound, htagged⟩ := htags group hgroup message hmessage hkind
  rw [hschema] at hfound
  obtain rfl : directory = found := Option.some.inj (hfind.symm.trans hfound)
  rw [← htagged.names, List.zip_map_right] at hmem
  obtain ⟨⟨own, field⟩, hfield, heq⟩ := List.mem_map.1 hmem
  obtain ⟨rfl, rfl⟩ := Prod.mk.inj heq
  exact ⟨field, ⟨directory, hfind, group, hgroup, message, hmessage, hkind, hschema, hfield⟩, rfl⟩

/-!
## Two runs
-/

/-- Fields of one message that are emitted in turn have the same tag if they have the same name,
and only then. -/
theorem Tree.tag_eq_iff_name_eq (hsound : last.Sound) (hextends : middle.Extends last)
    (h : tree.generateRecords config ledger = (.ok records, middle))
    (h' : tree'.generateRecords config middle = (.ok records', last)) {node' : List String}
    {field field' : Field} (hfield : records.EmitsField config tree messagePath node field)
    (hfield' : records'.EmitsField config tree' messagePath node' field') :
    field.tag = field'.tag ↔ field.name = field'.name := by
  have htag := (Tree.name_and_tag_of_emitsField h hfield).2
  have htag' := (Tree.name_and_tag_of_emitsField h' hfield').2
  rw [Ledger.tag?_eq] at htag htag'
  -- the second run keeps the tag that the first one recorded
  have hkept := (hextends messagePath).kept htag
  constructor
  · intro heq
    rw [heq] at hkept
    exact (hsound messagePath).distinct hkept htag'
  · intro heq
    rw [heq, htag'] at hkept
    exact (Option.some.inj hkept).symm

theorem Tree.tagsFollowNodes_iff (hsound : last.Sound) (hextends : middle.Extends last)
    (h : tree.generateRecords config ledger = (.ok records, middle))
    (h' : tree'.generateRecords config middle = (.ok records', last)) :
    Tree.TagsFollowNodes config tree tree' records records' ↔
      Tree.NamesFollowNodes config tree tree' := by
  constructor
  · intro hfollow messagePath node name name' hname hname'
    obtain ⟨field, hfield, rfl⟩ := Tree.exists_emitsField h hname
    obtain ⟨field', hfield', rfl⟩ := Tree.exists_emitsField h' hname'
    exact (Tree.tag_eq_iff_name_eq hsound hextends h h' hfield hfield').1
      (hfollow messagePath node field field' hfield hfield')
  · intro hfollow messagePath node field field' hfield hfield'
    refine (Tree.tag_eq_iff_name_eq hsound hextends h h' hfield hfield').2 ?_
    exact hfollow messagePath node _ _ (Tree.name_and_tag_of_emitsField h hfield).1
      (Tree.name_and_tag_of_emitsField h' hfield').1

/-- After any history, over two runs that succeed, tags follow nodes exactly when names do. -/
theorem Tree.tags_follow_nodes_iff (operations : List Ledger.Operation) {config : Config}
    {sources : Sources} {tree tree' : Tree} {output output' : Output}
    (h : (tree.generate config sources (Ledger.empty.after operations)).1 = .ok output)
    (h' : (tree'.generate config sources
      (tree.generate config sources (Ledger.empty.after operations)).2).1 = .ok output') :
    ∃ records records',
      output = records.output config sources ∧ output' = records'.output config sources ∧
      (tree.generateRecords config (Ledger.empty.after operations)).1 = .ok records ∧
      (tree'.generateRecords config
        (tree.generate config sources (Ledger.empty.after operations)).2).1 = .ok records' ∧
      (Tree.TagsFollowNodes config tree tree' records records' ↔
        Tree.NamesFollowNodes config tree tree') := by
  have hsound := Ledger.sound_after_empty operations
  have hgrows := tree.grows_generate config sources (Ledger.empty.after operations)
  have hgrows' := tree'.grows_generate config sources
    (tree.generate config sources (Ledger.empty.after operations)).2
  obtain ⟨records, hrecords, houtput⟩ := Tree.exists_records_of_generate h
  obtain ⟨records', hrecords', houtput'⟩ := Tree.exists_records_of_generate h'
  refine ⟨records, records', houtput, houtput', congrArg Prod.fst hrecords,
    congrArg Prod.fst hrecords', ?_⟩
  exact Tree.tagsFollowNodes_iff (hgrows'.sound (hgrows.sound hsound)) hgrows'.toExtends hrecords
    hrecords'

theorem Tree.tags_follow_nodes_iff_new_leaf :
    let id := Node.leaf "id" .string
    let declared := Node.module "m" [Node.container "top" [id]]
    let declared' := Node.module "m" [Node.container "top" [Node.leaf "color" .string, id]]
    let tree := Tree.copyOf declared
    let tree' := Tree.copyOf declared'
    declared.GainsLeaf declared' ∧ Tree.ofNode declared = .ok tree ∧
      Tree.ofNode declared' = .ok tree' ∧
      ∃ output output', (tree.generate {} {} (Ledger.empty.after [])).1 = .ok output ∧
        (tree'.generate {} {} (tree.generate {} {} (Ledger.empty.after [])).2).1 = .ok output' ∧
        ∃ records records', output = records.output {} {} ∧ output' = records'.output {} {} ∧
          (tree.generateRecords {} (Ledger.empty.after [])).1 = .ok records ∧
          (tree'.generateRecords {} (tree.generate {} {} (Ledger.empty.after [])).2).1 =
            .ok records' ∧
          (Tree.TagsFollowNodes {} tree tree' records records' ↔
            Tree.NamesFollowNodes {} tree tree') := by
  intro id declared declared' tree tree'
  have hgains : declared.GainsLeaf declared' := .inside [] [] (.here [] [id] rfl rfl)
  have hsome : (tree.generate {} {} (Ledger.empty.after [])).1.toOption.isSome = true := by
    decide +kernel
  have hledger : (tree.generate {} {} (Ledger.empty.after [])).2 =
      ⟨SortedMap.empty.insert "/m/top" (SortedMap.empty.insert "id" 1)⟩ := by
    decide +kernel
  have hsome' : (tree'.generate {} {}
      (tree.generate {} {} (Ledger.empty.after [])).2).1.toOption.isSome = true := by
    rw [hledger]
    decide +kernel
  obtain ⟨output, h⟩ := exists_eq_ok_of_isSome hsome
  obtain ⟨output', h'⟩ := exists_eq_ok_of_isSome hsome'
  exact ⟨hgains, Tree.ofNode_eq rfl (by decide +kernel), Tree.ofNode_eq rfl (by decide +kernel),
    output, output', h, h', Tree.tags_follow_nodes_iff [] h h'⟩

/-- A leaf that comes earlier and has the same sanitized name takes the name of the old one. The old
node goes on under a new name, and with a new tag. -/
theorem Tree.not_tags_follow_nodes :
    let old := Node.leaf "a_b" .string
    let declared := Node.module "m" [Node.container "top" [old]]
    let declared' := Node.module "m" [Node.container "top" [old, Node.leaf "a-b" .boolean]]
    let tree := Tree.copyOf declared
    let tree' := Tree.copyOf declared'
    declared.GainsLeaf declared' ∧ Tree.ofNode declared = .ok tree ∧
      Tree.ofNode declared' = .ok tree' ∧
      ∃ output output', (tree.generate {} {} (Ledger.empty.after [])).1 = .ok output ∧
        (tree'.generate {} {} (tree.generate {} {} (Ledger.empty.after [])).2).1 = .ok output' ∧
        ∃ records records', output = records.output {} {} ∧ output' = records'.output {} {} ∧
          (tree.generateRecords {} (Ledger.empty.after [])).1 = .ok records ∧
          (tree'.generateRecords {} (tree.generate {} {} (Ledger.empty.after [])).2).1 =
            .ok records' ∧
          ¬ Tree.TagsFollowNodes {} tree tree' records records' := by
  intro old declared declared' tree tree'
  have hgains : declared.GainsLeaf declared' := .inside [] [] (.here [old] [] rfl rfl)
  have hsome : (tree.generate {} {} (Ledger.empty.after [])).1.toOption.isSome = true := by
    decide +kernel
  have hledger : (tree.generate {} {} (Ledger.empty.after [])).2 =
      ⟨SortedMap.empty.insert "/m/top" (SortedMap.empty.insert "a_b" 1)⟩ := by
    decide +kernel
  have hsome' : (tree'.generate {} {}
      (tree.generate {} {} (Ledger.empty.after [])).2).1.toOption.isSome = true := by
    rw [hledger]
    decide +kernel
  obtain ⟨output, h⟩ := exists_eq_ok_of_isSome hsome
  obtain ⟨output', h'⟩ := exists_eq_ok_of_isSome hsome'
  obtain ⟨records, hrecords, houtput⟩ := Tree.exists_records_of_generate h
  obtain ⟨records', hrecords', houtput'⟩ := Tree.exists_records_of_generate h'
  have hgrows := tree.grows_generate {} {} Ledger.empty
  have hgrows' := tree'.grows_generate {} {} (tree.generate {} {} Ledger.empty).2
  refine ⟨hgains, Tree.ofNode_eq rfl (by decide +kernel), Tree.ofNode_eq rfl (by decide +kernel),
    output, output', h, h', records, records', houtput, houtput',
    congrArg Prod.fst hrecords, congrArg Prod.fst hrecords', ?_⟩
  rw [Tree.tagsFollowNodes_iff (hgrows'.sound (hgrows.sound .empty)) hgrows'.toExtends hrecords
    hrecords']
  intro hfollow
  have hname : tree.NamesField {} "/m/top" ["m", "top", "a_b"] "a_b" := by decide +kernel
  have hname' : tree'.NamesField {} "/m/top" ["m", "top", "a_b"] "a_b_1" := by decide +kernel
  exact absurd (hfollow _ _ _ _ hname hname') (by decide)

end YangToProto

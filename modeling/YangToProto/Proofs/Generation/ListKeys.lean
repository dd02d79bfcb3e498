import YangToProto.Proofs.Generation.Records

/-!
# Where the keys of a list are

The keys of a list stay in its own message if no message holds the list. They move to a key wrapper
if the list is a field of some message. Between the two lies a gap: a message above holds the list,
but another node has taken the list's place among the fields, and then the keys are in no message at
all (`Tree.list_keys_iff`).
-/

namespace YangToProto

variable {config : Config} {tree : Tree} {registry : Registry} {records : GeneratedRecords}

namespace GeneratedRecords

def isFor (owner : Owner) (message : Message) : Bool :=
  message.kind == owner.messageKind && message.schemaPath == owner.site.pathText

def messagesFor (records : GeneratedRecords) (owner : Owner) : List Message :=
  (records.messages.map Prod.snd).filter (isFor owner)

end GeneratedRecords

/-- Among the fields of an owner's message is one for the node that is called by the key in the
list's directory. -/
def Message.HasKey (config : Config) (tree : Tree) (owner : Owner) (message : Message)
    (key : String) : Prop :=
  ∃ leaf field, (owner.site.fields config.compressPaths).find? key = some leaf ∧
    (leaf, field) ∈ (owner.fields config (tree.directories config)).zip message.fields

/-- The list has no key wrapper, and its own message has a field for every key. -/
def GeneratedRecords.KeysStay (config : Config) (tree : Tree) (records : GeneratedRecords)
    (list : Site) : Prop :=
  records.messagesFor (.keys list) = [] ∧
    ∃ own, records.messagesFor (.directory list) = [own] ∧
      ∀ key ∈ list.node.key, own.HasKey config tree (.directory list) key

/-- The list has one key wrapper with a field for every key, and its own message has a field for
none of them. -/
def GeneratedRecords.KeysMove (config : Config) (tree : Tree) (records : GeneratedRecords)
    (list : Site) : Prop :=
  (∃ wrapper, records.messagesFor (.keys list) = [wrapper] ∧
    ∀ key ∈ list.node.key, wrapper.HasKey config tree (.keys list) key) ∧
    ∃ own, records.messagesFor (.directory list) = [own] ∧
      ∀ key ∈ list.node.key, ¬ own.HasKey config tree (.directory list) key

/-- The list has no key wrapper, and its own message has a field for none of the keys. -/
def GeneratedRecords.KeysLost (config : Config) (tree : Tree) (records : GeneratedRecords)
    (list : Site) : Prop :=
  records.messagesFor (.keys list) = [] ∧
    ∃ own, records.messagesFor (.directory list) = [own] ∧
      ∀ key ∈ list.node.key, ¬ own.HasKey config tree (.directory list) key

/-- The keys of the list are in its own message or in one key wrapper, and not in both. -/
def GeneratedRecords.KeysOnce (config : Config) (tree : Tree) (records : GeneratedRecords)
    (list : Site) : Prop :=
  (records.KeysStay config tree list ∨ records.KeysMove config tree list) ∧
    ¬ (records.KeysStay config tree list ∧ records.KeysMove config tree list)

/-- Some message has the list among its fields. -/
def Tree.Lists (config : Config) (tree : Tree) (list : Site) : Prop :=
  ∃ directory ∈ (tree.directories config).directories,
    list ∈ (directory.ownFields config.compressPaths).map Prod.snd

/-!
## Messages of one owner
-/

theorem Owner.eq_of_messageKind_eq {owner other : Owner}
    (hkind : owner.messageKind = other.messageKind) (hsite : owner.site = other.site) :
    owner = other := by
  cases owner with
  | directory site =>
      cases other with
      | directory site' => exact congrArg Owner.directory hsite
      | keys list => cases hkind
  | keys list =>
      cases other with
      | directory site => cases hkind
      | keys list' => exact congrArg Owner.keys hsite

namespace GeneratedRecords

/-- An owner of the tree has one message, and any other node has none. -/
theorem NamedBy.messagesFor (h : records.NamedBy config tree registry)
    (hroot : tree.root.Distinct) (hslash : tree.SlashFree) (owner : Owner)
    (hsite : tree.HasSite owner.site) :
    (owner ∉ tree.owners config → records.messagesFor owner = []) ∧
      (owner ∈ tree.owners config → ∃ message, records.messagesFor owner = [message] ∧
        message.MadeFor config (tree.directories config) registry owner) := by
  have hmade := h.madeFor
  rw [Tree.owners_directories hroot hslash] at hmade
  have hmessages := List.forall₂_map_right_iff.2 (hmade.imp fun _ _ hboth => hboth.1)
  have hfor : ∀ other ∈ tree.owners config, ∀ message,
      Message.MadeFor config (tree.directories config) registry other message →
        (isFor owner message = true ↔ other = owner) := by
    intro other hother message hmessage
    rw [isFor, Bool.and_eq_true, beq_iff_eq, beq_iff_eq, hmessage.kind, hmessage.schemaPath]
    constructor
    · rintro ⟨hkind, hpath⟩
      exact Owner.eq_of_messageKind_eq hkind
        (tree.eq_of_pathText_eq hroot hslash (Tree.hasSite_of_mem_owners hother) hsite hpath)
    · rintro rfl
      exact ⟨rfl, rfl⟩
  obtain ⟨hnone, hone⟩ := filter_of_forall₂ hmessages (Tree.nodup_owners hroot) owner hfor
  refine ⟨hnone, fun hmem => ?_⟩
  obtain ⟨message, hzip, hfilter⟩ := hone hmem
  exact ⟨message, hfilter, List.forall₂_zip hmessages hzip⟩

end GeneratedRecords

/-!
## Keys in messages
-/

theorem Message.MadeFor.hasKey_iff {owner : Owner} {message : Message} {key : String} {leaf : Site}
    (h : message.MadeFor config (tree.directories config) registry owner)
    (hleaf : (owner.site.fields config.compressPaths).find? key = some leaf) :
    message.HasKey config tree owner key ↔
      leaf ∈ owner.fields config (tree.directories config) := by
  constructor
  · rintro ⟨found, field, hfound, hmem⟩
    obtain rfl := Option.some.inj (hleaf.symm.trans hfound)
    exact (List.of_mem_zip hmem).1
  · intro hmem
    rw [← List.map_fst_zip (Nat.le_of_eq h.fields.length_eq)] at hmem
    obtain ⟨⟨_, field⟩, hfield, rfl⟩ := List.mem_map.1 hmem
    exact ⟨_, field, hleaf, hfield⟩

/-- A key of a list is a field of the list's own message unless the keys have moved. -/
theorem Directory.mem_ownFields_key_iff {compress : Bool} {list leaf : Site} {key : String}
    (hmessage : list.isMessage compress = true) (hkeyed : list.node.isKeyedList = true)
    (hkey : key ∈ list.node.key) (hleaf : (list.fields compress).find? key = some leaf) :
    leaf ∈ ((ofSite compress list).ownFields compress).map Prod.snd ↔
      list.holder? compress = none := by
  have hmoves : (ofSite compress list).movesKeys compress = (list.holder? compress).isSome := by
    rw [movesKeys, site_ofSite, hkeyed, Bool.true_and]
  rw [List.mem_map]
  constructor
  · rintro ⟨⟨name, field⟩, hfield, rfl⟩
    obtain ⟨hentry, hstays⟩ := List.mem_filter.1 hfield
    -- a field goes by its own name, so this one goes by the key
    have hname := (Site.of_mem_fields hmessage hentry).1
    have hname' := (Site.of_mem_fields hmessage ((SortedMap.mem_entries_iff _ _ _).2 hleaf)).1
    rw [hname] at hname'
    rw [hmoves, hname', site_ofSite] at hstays
    simpa [hkey] using hstays
  · intro hnone
    refine ⟨(key, leaf), List.mem_filter.2 ⟨(SortedMap.mem_entries_iff _ _ _).2 hleaf, ?_⟩, rfl⟩
    rw [hmoves, hnone]
    rfl

/-- A keyed list is a message: compression removes no list, and the module is none. -/
theorem Tree.isMessage_of_isKeyedList {declared : Node} (htree : Tree.ofNode declared = .ok tree)
    {list : Site} (hlist : tree.HasSite list) (hkeyed : list.node.isKeyedList = true) :
    list.isMessage config.compressPaths = true := by
  have hkind : list.kind = .list := by
    rw [Node.isKeyedList, Bool.and_eq_true, beq_iff_eq] at hkeyed
    exact hkeyed.1
  have hancestors : list.ancestors ≠ [] := by
    cases hlist with
    | self =>
        have hroot : tree.root.kind = .module := Tree.kind_root htree
        exact absurd (hkind.symm.trans hroot) (by decide)
    | step => exact List.cons_ne_nil _ _
  simp [Site.isMessage, Site.isElided, hkind, hancestors, NodeKind.isDirectory]

theorem Tree.mem_owners_keys_iff {list : Site} (hkeyed : list.node.isKeyedList = true) :
    Owner.keys list ∈ tree.owners config ↔ tree.Lists config list := by
  rw [Tree.mem_owners_iff, Tree.Lists]
  constructor
  · rintro ⟨directory, hd, howner⟩
    rcases Directory.mem_owners_iff.1 howner with ⟨field, hfield, _, heq⟩ | heq
    · cases heq
      exact ⟨directory, hd, List.mem_map_of_mem hfield⟩
    · cases heq
  · rintro ⟨directory, hd, hlist⟩
    obtain ⟨field, hfield, rfl⟩ := List.mem_map.1 hlist
    exact ⟨directory, hd, Directory.mem_owners_iff.2 (Or.inl ⟨field, hfield, hkeyed, rfl⟩)⟩

/-- A list that some message has among its fields is held by a message. -/
theorem Tree.holder?_of_lists {list : Site} (h : tree.Lists config list) :
    list.holder? config.compressPaths ≠ none := by
  obtain ⟨directory, hd, hlist⟩ := h
  obtain ⟨⟨name, field⟩, hfield, rfl⟩ := List.mem_map.1 hlist
  obtain ⟨site, _, hmessage, rfl⟩ := DirectorySet.mem_collect_iff.1 hd
  obtain ⟨_, _, _, hholder⟩ := Site.of_mem_fields hmessage (List.mem_filter.1 hfield).1
  simp [hholder]

/-!
## Fields of the message that holds a list
-/

namespace Site

variable {compress : Bool}

/-- What may be a field of a message, in the order in which names are taken. -/
def candidates (compress : Bool) (site : Site) : List Site :=
  [0, 1, 2].flatMap (site.fieldsOfRank compress)

theorem find?_foldl_insertNew_eq (sites : List Site) (found : SortedMap String Site)
    (name : String) :
    (sites.foldl (fun found field => found.insertNew field.name field) found).find? name =
      (found.find? name).or (sites.find? fun field => field.name == name) := by
  induction sites generalizing found with
  | nil => simp
  | cons site rest ih =>
      rw [List.foldl_cons, ih, SortedMap.find?_insertNew]
      by_cases h : site.name = name
      · rw [if_pos h.symm, List.find?_cons_of_pos (by simp [h]), h]
        cases found.find? name <;> rfl
      · rw [if_neg (Ne.symm h), List.find?_cons_of_neg (by simp [h])]

/-- Of the candidates with one name the first one is the field. -/
theorem find?_fields (site : Site) (name : String) :
    (site.fields compress).find? name =
      (site.candidates compress).find? fun field => field.name == name :=
  find?_foldl_insertNew_eq _ _ _

theorem expand_of_isElided (site : Site) (h : site.isElided compress = true) :
    expand compress site.ancestors site.node =
      site.children.flatMap fun child => expand compress child.ancestors child.node := by
  rw [expand_eq, if_pos h]

theorem expand_of_not_isElided (site : Site) (h : site.isElided compress = false) :
    expand compress site.ancestors site.node = [site] := by
  rw [expand_eq, if_neg (by simp [h])]

theorem rank_mem (compress : Bool) (child : Site) : child.rank compress ∈ [0, 1, 2] := by
  rw [rank]
  split
  · decide
  · split <;> decide

/-- Looking downwards finds what looking upwards promises: the message that holds a node has what
the node contributes among its candidates. -/
theorem mem_candidates_of_holder? {tree : Tree} {site holder : Site} (hsite : tree.HasSite site)
    (h : site.holder? compress = some holder) :
    (tree.HasSite holder ∧ holder.ancestors ≠ [] ∧ holder.isElided compress = false ∧
      holder.node.children ≠ []) ∧
    ∀ field ∈ expand compress site.ancestors site.node, field ∈ holder.candidates compress := by
  induction hsite with
  | self => cases h
  | @step parent child hparent hc ih =>
      change holderAmong? compress (parent.node :: parent.ancestors) = some holder at h
      by_cases hancestors : parent.ancestors = []
      · rw [hancestors] at h
        cases h
      rw [holderAmong?_cons _ hancestors] at h
      by_cases helided : parent.isElided compress = true
      · rw [if_pos helided] at h
        obtain ⟨hholder, hall⟩ := ih h
        rw [expand_of_isElided parent helided] at hall
        exact ⟨hholder, fun field hfield => hall field
          (List.mem_flatMap.2 ⟨_, mem_children_iff.2 ⟨child, hc, rfl⟩, hfield⟩)⟩
      · rw [if_neg helided, Option.some.injEq] at h
        obtain rfl : parent = holder := h
        refine ⟨⟨hparent, hancestors, by simpa using helided, List.ne_nil_of_mem hc⟩, ?_⟩
        intro field hfield
        refine List.mem_flatMap.2 ⟨_, (parent.below child).rank_mem compress, ?_⟩
        refine List.mem_flatMap.2 ⟨parent.below child, List.mem_filter.2 ⟨?_, ?_⟩, hfield⟩
        · exact mem_children_iff.2 ⟨child, hc, rfl⟩
        · exact beq_self_eq_true _

end Site

/-!
## The theorem
-/

namespace GeneratedRecords

variable {list : Site}

theorem not_keysMove_of_keysStay (h : records.KeysStay config tree list) :
    ¬ records.KeysMove config tree list := by
  rintro ⟨⟨wrapper, hwrapper, _⟩, _⟩
  rw [h.1] at hwrapper
  cases hwrapper

theorem not_keysMove_of_keysLost (h : records.KeysLost config tree list) :
    ¬ records.KeysMove config tree list := by
  rintro ⟨⟨wrapper, hwrapper, _⟩, _⟩
  rw [h.1] at hwrapper
  cases hwrapper

theorem not_keysStay_of_keysLost (hkeyed : list.node.isKeyedList = true)
    (h : records.KeysLost config tree list) : ¬ records.KeysStay config tree list := by
  rintro ⟨_, own, hown, hall⟩
  obtain ⟨_, other, hother, hnone⟩ := h
  rw [hown, List.singleton_inj] at hother
  rw [Node.isKeyedList, Bool.and_eq_true, Bool.not_eq_true', List.isEmpty_eq_false_iff] at hkeyed
  obtain ⟨key, hkey⟩ := List.exists_mem_of_ne_nil _ hkeyed.2
  exact hnone key hkey (hother ▸ hall key hkey)

/-- The keys of a list stay where nothing holds it, move where it is a field, and are lost where it
is held by a message of which it is no field. -/
theorem NamedBy.keys_cases {declared : Node} (h : records.NamedBy config tree registry)
    (htree : Tree.ofNode declared = .ok tree) (hslash : tree.SlashFree)
    (hlist : tree.HasSite list) (hkeyed : list.node.isKeyedList = true)
    (hkeys : ∀ key ∈ list.node.key, ∃ leaf,
      (list.fields config.compressPaths).find? key = some leaf) :
    (list.holder? config.compressPaths = none ∧ records.KeysStay config tree list) ∨
    (tree.Lists config list ∧ records.KeysMove config tree list) ∨
    (list.holder? config.compressPaths ≠ none ∧ ¬ tree.Lists config list ∧
      records.KeysLost config tree list) := by
  have hroot := Tree.distinct_root htree
  have hmessage : list.isMessage config.compressPaths = true :=
    Tree.isMessage_of_isKeyedList htree hlist hkeyed
  have hd := DirectorySet.mem_collect_iff.2 ⟨list, hlist, hmessage, rfl⟩
  obtain ⟨own, hown, hmade⟩ := (h.messagesFor hroot hslash (.directory list) hlist).2
    (Tree.mem_owners_iff.2 ⟨_, hd, Directory.mem_owners_iff.2 (Or.inr rfl)⟩)
  obtain ⟨hnone, hone⟩ := h.messagesFor hroot hslash (.keys list) hlist
  rw [Tree.mem_owners_keys_iff hkeyed] at hnone hone
  have hstays : ∀ key ∈ list.node.key, own.HasKey config tree (.directory list) key ↔
      list.holder? config.compressPaths = none := by
    intro key hkey
    obtain ⟨leaf, hleaf⟩ := hkeys key hkey
    exact (hmade.hasKey_iff hleaf).trans
      (Directory.mem_ownFields_key_iff hmessage hkeyed hkey hleaf)
  by_cases hholder : list.holder? config.compressPaths = none
  · have hnot : ¬ tree.Lists config list := fun hlists => Tree.holder?_of_lists hlists hholder
    exact Or.inl ⟨hholder, hnone hnot, own, hown, fun key hkey => (hstays key hkey).2 hholder⟩
  have hlost : ∀ key ∈ list.node.key, ¬ own.HasKey config tree (.directory list) key :=
    fun key hkey hhas => hholder ((hstays key hkey).1 hhas)
  by_cases hlists : tree.Lists config list
  · obtain ⟨wrapper, hwrapper, hfor⟩ := hone hlists
    refine Or.inr (Or.inl ⟨hlists, ⟨wrapper, hwrapper, fun key hkey => ?_⟩, own, hown, hlost⟩)
    obtain ⟨leaf, hleaf⟩ := hkeys key hkey
    refine (hfor.hasKey_iff hleaf).2 (List.mem_append_left _ ?_)
    refine List.mem_filterMap.2 ⟨key, hkey, ?_⟩
    have hfind : (tree.directories config).find? list.pathText =
        some (Directory.ofSite config.compressPaths list) :=
      DirectorySet.find?_collect hroot hslash hd
    rw [Site.keyLeaf?, hfind, Option.bind_some, Directory.fields_ofSite, hleaf]
  · exact Or.inr (Or.inr ⟨hholder, hlists, hnone hlists, own, hown, hlost⟩)

end GeneratedRecords

/-- In a run that succeeds the keys of a list are either in its own message or in one key wrapper
exactly if no message holds the list or some message has it as a field. Otherwise they are in no
message. -/
theorem Tree.list_keys_iff {declared : Node} {tree : Tree}
    (htree : Tree.ofNode declared = .ok tree) (hslash : tree.SlashFree) {config : Config}
    {sources : Sources} {ledger : Ledger} {output : Output}
    (h : (tree.generate config sources ledger).1 = .ok output) :
    ∃ records, (tree.generateRecords config ledger).1 = .ok records ∧
      output = records.output config sources ∧
      ∀ list, tree.HasSite list → list.node.isKeyedList = true →
        (∀ key ∈ list.node.key, ∃ leaf,
          (list.fields config.compressPaths).find? key = some leaf) →
        (records.KeysOnce config tree list ↔
          list.holder? config.compressPaths = none ∨ tree.Lists config list) ∧
        (¬ (list.holder? config.compressPaths = none ∨ tree.Lists config list) →
          records.KeysLost config tree list) := by
  obtain ⟨records, hrecords, rfl⟩ := Tree.exists_records_of_generate h
  obtain ⟨start, final, _, _, hnamed⟩ := Tree.exists_namedBy_of_generateRecords hrecords
  refine ⟨records, congrArg Prod.fst hrecords, rfl, fun list hlist hkeyed hkeys => ?_⟩
  rcases hnamed.keys_cases htree hslash hlist hkeyed hkeys with
    ⟨hholder, hstay⟩ | ⟨hlists, hmove⟩ | ⟨hholder, hnot, hlost⟩
  · have hnotMove := GeneratedRecords.not_keysMove_of_keysStay hstay
    exact ⟨⟨fun _ => Or.inl hholder, fun _ => ⟨Or.inl hstay, fun hboth => hnotMove hboth.2⟩⟩,
      fun hneither => absurd (Or.inl hholder) hneither⟩
  · have hnotStay := fun hstay => GeneratedRecords.not_keysMove_of_keysStay hstay hmove
    exact ⟨⟨fun _ => Or.inr hlists, fun _ => ⟨Or.inr hmove, fun hboth => hnotStay hboth.1⟩⟩,
      fun hneither => absurd (Or.inr hlists) hneither⟩
  · have hnotMove := GeneratedRecords.not_keysMove_of_keysLost hlost
    have hnotStay := GeneratedRecords.not_keysStay_of_keysLost hkeyed hlost
    refine ⟨⟨fun hone => ?_, fun hlisted => ?_⟩, fun _ => hlost⟩
    · exact (hone.1.elim hnotStay hnotMove).elim
    · exact (hlisted.elim hholder hnot).elim

theorem Tree.list_keys_iff_listed :
    let item := Node.list "item" ["id"] [Node.leaf "id" .string]
    let top := Node.container "top" [item]
    let declared := Node.module "m" [top]
    let tree := Tree.copyOf declared
    Tree.ofNode declared = .ok tree ∧ tree.SlashFree ∧
      ∃ output, (tree.generate {} {} ∅).1 = .ok output ∧
      ∃ records, (tree.generateRecords {} ∅).1 = .ok records ∧ output = records.output {} {} ∧
        ∀ list, tree.HasSite list → list.node.isKeyedList = true →
          (∀ key ∈ list.node.key, ∃ leaf, (list.fields false).find? key = some leaf) →
          (records.KeysOnce {} tree list ↔ list.holder? false = none ∨ tree.Lists {} list) ∧
          (¬ (list.holder? false = none ∨ tree.Lists {} list) → records.KeysLost {} tree list) := by
  intro item top declared tree
  have htree : Tree.ofNode declared = .ok tree :=
    Tree.ofNode_eq rfl (by decide +kernel)
  have hslash : tree.SlashFree := Tree.slashFree_of_sites (by decide +kernel)
  have hsome : (tree.generate {} {} ∅).1.toOption.isSome = true := by decide +kernel
  obtain ⟨output, hrun⟩ := exists_eq_ok_of_isSome hsome
  exact ⟨htree, hslash, output, hrun, Tree.list_keys_iff htree hslash hrun⟩

/-- With compression a child of a message takes the place of a list of the same name in an elided
container beside it. The list has a message without its key, and there is no key wrapper. -/
theorem Tree.not_list_keys :
    let id := Node.leaf "id" .string
    let list := Node.list "item" ["id"] [id]
    let items := Node.container "items" [list]
    let top := Node.container "top" [Node.container "item" [Node.leaf "x" .string], items]
    let declared := Node.module "m" [top]
    let tree := Tree.copyOf declared
    let config : Config := { compressPaths := true }
    let site : Site := ⟨list, [items, top, declared]⟩
    Tree.ofNode declared = .ok tree ∧ tree.SlashFree ∧ tree.HasSite site ∧
      site.node.isKeyedList = true ∧
      (∀ key ∈ site.node.key, ∃ leaf,
        (site.fields config.compressPaths).find? key = some leaf) ∧
      ∃ output, (tree.generate config {} ∅).1 = .ok output ∧
      ∃ records, (tree.generateRecords config ∅).1 = .ok records ∧
        output = records.output config {} ∧ ¬ records.KeysOnce config tree site := by
  intro id list items top declared tree config site
  have htree : Tree.ofNode declared = .ok tree :=
    Tree.ofNode_eq rfl (by decide +kernel)
  have hslash : tree.SlashFree := Tree.slashFree_of_sites (by decide +kernel)
  have hsite : tree.HasSite site :=
    ((Site.Under.self.step List.mem_cons_self).step
      (List.mem_cons_of_mem _ List.mem_cons_self)).step List.mem_cons_self
  have hkeys : ∀ key ∈ site.node.key, ∃ leaf,
      (site.fields config.compressPaths).find? key = some leaf := by
    intro key hkey
    obtain rfl := List.mem_singleton.1 hkey
    exact Option.isSome_iff_exists.1 (by decide +kernel)
  have hsome : (tree.generate config {} ∅).1.toOption.isSome = true := by decide +kernel
  obtain ⟨output, hrun⟩ := exists_eq_ok_of_isSome hsome
  obtain ⟨records, hrecords, houtput⟩ := Tree.exists_records_of_generate hrun
  obtain ⟨start, final, _, _, hnamed⟩ := Tree.exists_namedBy_of_generateRecords hrecords
  have hholder : site.holder? config.compressPaths ≠ none := by
    rw [← Option.isSome_iff_ne_none]
    rfl
  have hlists : ¬ tree.Lists config site := by
    rintro ⟨directory, hd, hmem⟩
    have hnone : ∀ directory ∈ (tree.directories config).directories, site.pathText ∉
        (directory.ownFields config.compressPaths).map fun field => field.2.pathText := by
      decide +kernel
    refine hnone directory hd ?_
    obtain ⟨field, hfield, hsame⟩ := List.mem_map.1 hmem
    exact List.mem_map.2 ⟨field, hfield, congrArg Site.pathText hsame⟩
  refine ⟨htree, hslash, hsite, rfl, hkeys, output, hrun, records, congrArg Prod.fst hrecords,
    houtput, fun honce => ?_⟩
  rcases hnamed.keys_cases htree hslash hsite rfl hkeys with
    ⟨hnone, _⟩ | ⟨hlisted, _⟩ | ⟨_, _, hlost⟩
  · exact hholder hnone
  · exact hlists hlisted
  · exact honce.1.elim (GeneratedRecords.not_keysStay_of_keysLost rfl hlost)
      (GeneratedRecords.not_keysMove_of_keysLost hlost)

end YangToProto

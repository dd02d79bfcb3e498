import YangToProto.Proofs.Generation.ListKeys

/-!
# Looking downwards and looking upwards

`Site.expand` looks downwards through elided levels for what may be a field of a message, and
`Site.holder?` looks upwards through them for the message that holds a node. The two agree: what may
be a field of a message is what the message holds (`Site.mem_candidates_iff`). The fields are one
for each name that occurs there (`DirectorySet.fields_agree_with_holders`).
-/

namespace YangToProto

variable {tree : Tree} {compress : Bool}

/-- What may be a field of a message are the nodes of the tree that stay and that the message
holds. -/
theorem Site.mem_candidates_iff {site field : Site} (hsite : tree.HasSite site)
    (hmessage : site.isMessage compress = true) :
    field ∈ site.candidates compress ↔
      tree.HasSite field ∧ field.isElided compress = false ∧
        field.holder? compress = some site := by
  constructor
  · intro hmem
    obtain ⟨rank, _, hrank⟩ := List.mem_flatMap.1 hmem
    obtain ⟨hunder, hkept, hholder⟩ := Site.of_mem_fieldsOfRank hrank
    exact ⟨hsite.trans hunder, hkept, hholder.trans (holderAmong?_of_isMessage hmessage)⟩
  · rintro ⟨hfield, hkept, hholder⟩
    obtain ⟨_, hall⟩ := Site.mem_candidates_of_holder? hfield hholder
    rw [Site.expand_of_not_isElided field hkept] at hall
    exact hall field List.mem_cons_self

/-- A message has a field of some name exactly if it holds a node of that name that stays. -/
theorem Site.isSome_find?_fields_iff {site : Site} (hsite : tree.HasSite site)
    (hmessage : site.isMessage compress = true) (name : String) :
    ((site.fields compress).find? name).isSome = true ↔
      ∃ field, tree.HasSite field ∧ field.isElided compress = false ∧
        field.holder? compress = some site ∧ field.name = name := by
  rw [Site.find?_fields, List.find?_isSome]
  constructor
  · rintro ⟨field, hmem, hname⟩
    obtain ⟨hfield, hkept, hholder⟩ := (Site.mem_candidates_iff hsite hmessage).1 hmem
    exact ⟨field, hfield, hkept, hholder, eq_of_beq hname⟩
  · rintro ⟨field, hfield, hkept, hholder, rfl⟩
    exact ⟨field, (Site.mem_candidates_iff hsite hmessage).2 ⟨hfield, hkept, hholder⟩,
      beq_self_eq_true _⟩

namespace DirectorySet

/-- Every field of a directory goes by its own name, stays, is held by the directory's node, and has
a directory of its own if it is a container or list. Every node that stays and is held by the
directory's node has its name among the fields. -/
theorem fields_agree_with_holders (tree : Tree) (compress : Bool) {directory : Directory}
    (hd : directory ∈ (collect tree compress).directories) :
    (∀ name field, (name, field) ∈ directory.fields.entries →
      tree.HasSite field ∧ field.name = name ∧ field.isElided compress = false ∧
      field.holder? compress = some directory.site ∧
      (field.kind.isDirectory = true →
        ∃ own ∈ (collect tree compress).directories, own.site = field)) ∧
    ∀ site, tree.HasSite site → site.isElided compress = false →
      site.holder? compress = some directory.site →
      ∃ field, (site.name, field) ∈ directory.fields.entries := by
  obtain ⟨site, hsite, hmessage, rfl⟩ := mem_collect_iff.1 hd
  refine ⟨fun name field hentry => ?_, fun held hheld hkept hholder => ?_⟩
  · obtain ⟨hname, hunder, hkept, hholder⟩ := Site.of_mem_fields hmessage hentry
    exact ⟨hsite.trans hunder, hname, hkept, hholder,
      fun hkind => ⟨_, mem_collect_of_field hd hentry hkind, rfl⟩⟩
  · have hsome := (Site.isSome_find?_fields_iff hsite hmessage held.name).2
      ⟨held, hheld, hkept, hholder, rfl⟩
    obtain ⟨field, hfield⟩ := Option.isSome_iff_exists.1 hsome
    exact ⟨field, (SortedMap.mem_entries_iff _ _ _).2 hfield⟩

/-- A list that is two elided levels below its directory. -/
theorem fields_agree_with_holders_two_levels :
    let server := Node.list "server" ["id"] [Node.leaf "id" .string]
    let inner := Node.container "config" [Node.container "servers" [server]]
    let top := Node.container "top" [inner, Node.leaf "x" .string]
    let declared := Node.module "m" [top]
    let tree := Tree.copyOf declared
    let directory := Directory.ofSite true ⟨top, [declared]⟩
    directory ∈ (collect tree true).directories ∧
      directory.fields.entries.map Prod.fst = ["server", "x"] ∧
      (∀ name field, (name, field) ∈ directory.fields.entries →
        tree.HasSite field ∧ field.name = name ∧ field.isElided true = false ∧
        field.holder? true = some directory.site ∧
        (field.kind.isDirectory = true →
          ∃ own ∈ (collect tree true).directories, own.site = field)) ∧
      ∀ site, tree.HasSite site → site.isElided true = false →
        site.holder? true = some directory.site →
        ∃ field, (site.name, field) ∈ directory.fields.entries := by
  intro server inner top declared tree directory
  have hd : directory ∈ (collect tree true).directories :=
    mem_collect_iff.2 ⟨_, Site.Under.self.step List.mem_cons_self, by decide, rfl⟩
  exact ⟨hd, by decide +kernel, fields_agree_with_holders tree true hd⟩

end DirectorySet

end YangToProto

import YangToProto.Proofs.Generation.NameOrigins

/-!
# Legal identifiers

Where a schema uses names that it may use, the names of fields and the parts of packages that a run
emits are legal identifiers. The names of types are so exactly if every name that a type is named
after has a first word that starts with a letter (`Tree.identifiers_legal_iff`): a container `_1`
has the message `1`, and one named `_` has a message without a name.
-/

namespace YangToProto

open Identifier

variable {config : Config} {tree : Tree} {records : GeneratedRecords} {start final : Registry}
  {owner : Owner} {site : Site} {package : String} {message : Message}

/-- A type is named after the container or list that it is the message of, after the leaf whose
enumeration it is, or after the typedef or identity base that it is shared for. -/
inductive Tree.NamesType (config : Config) (tree : Tree) : String → Prop where
  | message {site : Site} (h : Owner.directory site ∈ tree.owners config) :
      NamesType config tree site.name
  | embedded {owner : Owner} {leaf : Site} (howner : owner ∈ tree.owners config)
      (hleaf : leaf ∈ owner.fields config (tree.directories config))
      (henum : leaf.embeddedEnum?.isSome = true) : NamesType config tree leaf.name
  | shared {source : String} (h : tree.AsksFor config source) : NamesType config tree source

theorem Tree.NamesType.isSchemaName (hnames : tree.WellNamed) {name : String}
    (hroot : tree.root.Distinct) (h : tree.NamesType config name) : isSchemaName name = true := by
  cases h with
  | message h => exact hnames.name (hasSite_of_mem_owners h)
  | embedded howner hleaf _ => exact hnames.name (hasSite_of_mem_fields howner hleaf)
  | shared h =>
      obtain ⟨leaf, type, hasks, hsource⟩ := h
      obtain ⟨owner, howner, hleaf⟩ := hasks.emitted
      rw [owners_directories hroot hnames.slashFree] at howner
      exact hnames.source (hasSite_of_mem_fields howner hleaf) hasks.type hsource

namespace GeneratedRecords

def fieldNames (records : GeneratedRecords) : List String :=
  records.messages.flatMap fun placed => placed.2.fields.map Field.name

def typeNames (records : GeneratedRecords) : List String :=
  records.messages.flatMap (fun placed => placed.2.name :: placed.2.enums.keys) ++
    records.enums.map PackageEnum.name

theorem mem_typeNames_iff {name : String} : name ∈ records.typeNames ↔
    (∃ package, ∃ message ∈ records.messagesIn package,
      message.name = name ∨ ∃ values, message.enums.find? name = some values) ∨
    ∃ enum ∈ records.enums, enum.name = name := by
  simp only [typeNames, List.mem_append, List.mem_flatMap, List.mem_cons, List.mem_map,
    SortedMap.mem_keys_iff, SortedMap.contains_iff, Prod.exists, ← mem_messages_iff,
    @eq_comm _ name]

end GeneratedRecords

/-!
## Fields and packages
-/

theorem Owner.isLegal_fieldNames (hnames : tree.WellNamed) (howner : owner ∈ tree.owners config) :
    ∀ name ∈ owner.fieldNames config (tree.directories config), isLegal name = true := by
  intro name hname
  obtain ⟨field, hfield, hmade⟩ := exists_mem_left_of_forall₂
    (owner.forall₂_fieldNames config (tree.directories config)) hname
  exact isLegal_of_madeFrom hmade
    (isLegal_sanitize (hnames.name (Tree.hasSite_of_mem_fields howner hfield)))

theorem Site.PartsOf.isLegal {parts : List String} (hnames : tree.WellNamed)
    (hsite : tree.HasSite site) (h : site.PartsOf config.compressPaths parts) :
    ∀ part ∈ parts, isLegal part = true := by
  intro part hpart
  obtain ⟨kept, hkept, hmade⟩ := h.madeFrom part hpart
  have hkept := (hsite.of_mem_keptAmong hkept).1
  exact isLegal_of_madeFrom hmade (isLegal_sanitize (hnames.name hkept))

namespace GeneratedRecords

theorem Traced.isLegal_fieldNames (h : records.Traced config tree start final)
    (hnames : tree.WellNamed) : ∀ name ∈ records.fieldNames, isLegal name = true := by
  intro name hname
  obtain ⟨⟨package, message⟩, hmem, hname⟩ := List.mem_flatMap.1 hname
  obtain ⟨owner, hmakes⟩ := h.named.exists_owner (mem_messages_iff.1 hmem)
  rw [(h.named.scopeOf hmakes).fields] at hname
  exact Owner.isLegal_fieldNames hnames (h.place?_of_makes hmakes).1 name hname

theorem Traced.isLegal_parts (h : records.Traced config tree start final)
    (hnames : tree.WellNamed) : ∀ placed ∈ records.messages, ∃ parts,
      placed.1 = Package.dotted (config.basePackage :: parts) ∧
        ∀ part ∈ parts, isLegal part = true := by
  rintro ⟨package, message⟩ hmem
  obtain ⟨owner, hmakes⟩ := h.named.exists_owner (mem_messages_iff.1 hmem)
  obtain ⟨home, parts, _, hhome, hparts, hpackage⟩ := h.exists_parts hmakes
  exact ⟨parts, hpackage, hparts.isLegal hnames (Tree.hasSite_of_mem_owners hhome)⟩

/-!
## Types
-/

/-- Words that start with letters make legal names of types. -/
theorem Traced.isLegal_typeNames (h : records.Traced config tree start final)
    (hnames : tree.WellNamed)
    (hopens : ∀ name, tree.NamesType config name → opensWithLetter name = true) :
    ∀ name ∈ records.typeNames, isLegal name = true := by
  have hlegal : ∀ {name}, tree.NamesType config name → isLegal (pascalCase name) = true :=
    fun hname => (isLegal_pascalCase_iff (hname.isSchemaName hnames h.root)).2 (hopens _ hname)
  have hkey : ∀ {name}, isLegal name = true →
      isLegal (Registry.keyCandidate name) = true := by
    intro name hname
    refine (isLegal_append ?_ Registry.isAllowed_of_mem_key).2 hname
    rintro rfl
    cases hname
  intro name hname
  rcases mem_typeNames_iff.1 hname with
    ⟨package, message, hmem, rfl | ⟨values, hvalues⟩⟩ | ⟨enum, henum, rfl⟩
  · exact h.forall_name (fun hcandidate hmade => isLegal_of_madeFrom hmade hcandidate)
      (fun site hsite => hlegal (.message hsite)) hkey hmem
  · obtain ⟨owner, hmakes⟩ := h.named.exists_owner hmem
    obtain ⟨leaf, hleaf, hbrings, hmade⟩ :=
      Owner.exists_leaf_of_mem_enums ((h.named.scopeOf hmakes).enums.1 hvalues)
    exact isLegal_of_madeFrom hmade
      (hlegal (.embedded (h.place?_of_makes hmakes).1 hleaf (by rw [hbrings]; rfl)))
  · obtain ⟨source, hasks, hmade⟩ := h.exists_source henum
    exact isLegal_of_madeFrom hmade (hlegal (.shared hasks))

/-- Legal names of types come from words that start with letters. A word that is missing would leave
some type without a name. -/
theorem Traced.opensWithLetter_of_namesType (h : records.Traced config tree start final)
    (hnames : tree.WellNamed) (hlegal : ∀ name ∈ records.typeNames, isLegal name = true)
    {name : String} (hname : tree.NamesType config name) : opensWithLetter name = true := by
  rw [← isLegal_pascalCase_iff (hname.isSchemaName hnames h.root)]
  cases hname with
  | @message site hsite =>
      have hpass := Tree.mem_ownersByPass_of_mem_owners hsite
      have hnamed : ∀ {other name}, Owner.directory other ∈ tree.owners config →
          start.name? (.directory other) = some name → name ∈ records.typeNames := by
        intro other name hother hfound
        rw [← Tree.owners_directories h.root h.slashFree] at hother
        obtain ⟨package, message, hmakes⟩ := h.named.exists_makes hother
        obtain rfl := Option.some.inj
          ((Registry.place?_eq_some_iff.1 (h.place?_of_makes hmakes).2).2.symm.trans hfound)
        exact mem_typeNames_iff.2 (Or.inl ⟨package, message, hmakes.mem_messagesIn, Or.inl rfl⟩)
      by_cases hempty : pascalCase site.name = ""
      · -- the owner that has no name is no key wrapper, so it has a message
        obtain ⟨other, hother, hfound⟩ := h.inTurn.exists_candidate hpass
        cases other with
        | directory other =>
            exact hlegal _ (hnamed (Tree.directory_mem_owners_of_mem_ownersByPass hother) hfound)
        | keys list => exact absurd hempty (h.inTurn.ne_empty_of_keys hother hfound)
      · obtain ⟨place, hplace⟩ := h.inTurn.exists_place? hpass
        have hfound := (Registry.place?_eq_some_iff.1 hplace).2
        have hmade := h.inTurn.madeFrom hpass hfound
        exact (hmade.isLegal_iff hempty).1 (hlegal _ (hnamed hsite hfound))
  | @embedded owner leaf howner hleaf henum =>
      obtain ⟨⟨candidate, values⟩, hbrings⟩ := Option.isSome_iff_exists.1 henum
      obtain ⟨rfl, _⟩ := Site.of_embeddedEnum? hbrings
      rw [← Tree.owners_directories h.root h.slashFree] at howner
      obtain ⟨package, message, hmakes⟩ := h.named.exists_makes howner
      obtain ⟨found, hfound⟩ := Owner.exists_enum_of_leaf hleaf hbrings
      exact hlegal _ (mem_typeNames_iff.2 (Or.inl ⟨package, message, hmakes.mem_messagesIn,
        Or.inr ⟨found, (h.named.scopeOf hmakes).enums.2 hfound⟩⟩))
  | shared hasks =>
      exact hlegal _ (mem_typeNames_iff.2 (Or.inr (h.exists_enum hnames hasks)))

end GeneratedRecords

/-- Where all names are those that a schema may use, the fields and the parts of packages that a run
emits have legal names. So have messages, key wrappers and enums exactly if the first word of every
name that a type is named after starts with a letter. -/
theorem Tree.identifiers_legal_iff {declared : Node} {tree : Tree}
    (htree : Tree.ofNode declared = .ok tree) (hnames : tree.WellNamed) {config : Config}
    {sources : Sources} {ledger : Ledger} {output : Output}
    (h : (tree.generate config sources ledger).1 = .ok output) :
    ∃ records, (tree.generateRecords config ledger).1 = .ok records ∧
      output = records.output config sources ∧
      (∀ name ∈ records.fieldNames, isLegal name = true) ∧
      (∀ placed ∈ records.messages, ∃ parts,
        placed.1 = Package.dotted (config.basePackage :: parts) ∧
          ∀ part ∈ parts, isLegal part = true) ∧
      ((∀ name ∈ records.typeNames, isLegal name = true) ↔
        ∀ name, tree.NamesType config name → opensWithLetter name = true) := by
  obtain ⟨records, start, final, hrecords, houtput, htraced⟩ :=
    exists_traced_of_generate (distinct_root htree) hnames.slashFree h
  refine ⟨records, hrecords, houtput, htraced.isLegal_fieldNames hnames,
    htraced.isLegal_parts hnames, ?_⟩
  exact ⟨fun hlegal _ => htraced.opensWithLetter_of_namesType hnames hlegal,
    htraced.isLegal_typeNames hnames⟩

theorem Tree.identifiers_legal_iff_two_levels :
    let declared := Node.module "m" [Node.container "_top-level"
      [Node.container "in.ner" [Node.leaf "x_1" LeafType.string]]]
    let tree := Tree.copyOf declared
    Tree.ofNode declared = .ok tree ∧ tree.WellNamed ∧
      ∃ output, (tree.generate {} {} ∅).1 = .ok output ∧
      ∃ records, (tree.generateRecords {} ∅).1 = .ok records ∧ output = records.output {} {} ∧
        (∀ name ∈ records.fieldNames, isLegal name = true) ∧
        (∀ placed ∈ records.messages, ∃ parts,
          placed.1 = Package.dotted ("openconfig" :: parts) ∧
            ∀ part ∈ parts, isLegal part = true) ∧
        ((∀ name ∈ records.typeNames, isLegal name = true) ↔
          ∀ name, tree.NamesType {} name → opensWithLetter name = true) := by
  intro declared tree
  have htree : Tree.ofNode declared = .ok tree :=
    Tree.ofNode_eq rfl (by decide +kernel)
  have hnames : tree.WellNamed := by decide +kernel
  have hsome : (tree.generate {} {} ∅).1.toOption.isSome = true := by decide +kernel
  obtain ⟨output, hrun⟩ := exists_eq_ok_of_isSome hsome
  exact ⟨htree, hnames, output, hrun, Tree.identifiers_legal_iff htree hnames hrun⟩

/-- The message of a container `_1` is named `1`. -/
theorem Tree.not_identifiers_legal :
    let declared := Node.module "m" [Node.container "_1" [Node.leaf "x" LeafType.string]]
    let tree := Tree.copyOf declared
    Tree.ofNode declared = .ok tree ∧ tree.WellNamed ∧
      ∃ output, (tree.generate {} {} ∅).1 = .ok output ∧
      ∃ records, (tree.generateRecords {} ∅).1 = .ok records ∧ output = records.output {} {} ∧
        ¬ ∀ name ∈ records.typeNames, isLegal name = true := by
  intro declared tree
  have htree : Tree.ofNode declared = .ok tree :=
    Tree.ofNode_eq rfl (by decide +kernel)
  have hnames : tree.WellNamed := by decide +kernel
  have hsome : (tree.generate {} {} ∅).1.toOption.isSome = true := by decide +kernel
  obtain ⟨output, hrun⟩ := exists_eq_ok_of_isSome hsome
  obtain ⟨records, start, final, hrecords, houtput, htraced⟩ :=
    exists_traced_of_generate (distinct_root htree) hnames.slashFree hrun
  refine ⟨htree, hnames, output, hrun, records, hrecords, houtput, fun hlegal => ?_⟩
  let site : Site := ⟨Node.container "_1" [Node.leaf "x" LeafType.string], [declared]⟩
  have hsite : tree.HasSite site := Site.Under.self.step List.mem_cons_self
  have hdirectory : Owner.directory site ∈ tree.owners {} :=
    directory_mem_owners_iff.2 (DirectorySet.mem_collect_iff.2 ⟨site, hsite, rfl, rfl⟩)
  have hopens := htraced.opensWithLetter_of_namesType hnames hlegal (.message hdirectory)
  exact absurd hopens (by decide)

end YangToProto

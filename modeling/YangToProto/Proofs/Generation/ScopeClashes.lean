import YangToProto.Proofs.Generation.NameOrigins
import YangToProto.Proofs.Proto.ValueNames

/-!
# Names in one scope

The fields of a message, its enums and the values of its enums share one scope, and so do the shared
enums and their values. Fields are kept apart from fields and enums from enums, but nothing else is:
a field may have the name of an enum or of a value, and values of two enums may have one name where
one enum got a suffix (`Tree.scopes_apart_iff`). None of this happens if fields start with
lower-case letters and symbols do not start with digits.
-/

namespace YangToProto

open Identifier EnumTable

variable {config : Config} {tree : Tree} {set : DirectorySet} {records : GeneratedRecords}
  {start final : Registry} {owner : Owner} {package : String} {message : Message}

/-- No value of an enum has the name of a value of the other enum. -/
def EnumTable.ValuesApart (enumName other : String) (values values' : EnumTable) : Prop :=
  ∀ symbol ∈ values.symbols, ∀ symbol' ∈ values'.symbols,
    valueName enumName symbol ≠ valueName other symbol'

/-- The fields, enums and values of a message have different names. -/
structure Message.ScopeApart (message : Message) : Prop where
  fields : ∀ field ∈ message.fields, ∀ name values, message.enums.find? name = some values →
    field.name ≠ name ∧ ∀ symbol ∈ values.symbols, field.name ≠ valueName name symbol
  values : ∀ name values other values', message.enums.find? name = some values →
    message.enums.find? other = some values' → name ≠ other →
      ValuesApart name other values values'

/-- So do the fields, enums and values of every message, and the shared enums and their values. -/
structure GeneratedRecords.ScopesApart (records : GeneratedRecords) : Prop where
  messages : ∀ placed ∈ records.messages, placed.2.ScopeApart
  shared : ∀ enum ∈ records.enums, ∀ other ∈ records.enums, enum.name ≠ other.name →
    (∀ symbol ∈ enum.values.symbols, valueName enum.name symbol ≠ other.name) ∧
      ValuesApart enum.name other.name enum.values other.values

def GeneratedRecords.symbols (records : GeneratedRecords) : List String :=
  records.messages.flatMap (fun placed => placed.2.enums.values.flatMap EnumTable.symbols) ++
    records.enums.flatMap fun enum => enum.values.symbols

namespace Owner

/-- No field of the owner's message gets the name of an enum or value. -/
def FieldsApart (config : Config) (set : DirectorySet) (owner : Owner) : Prop :=
  ∀ field ∈ owner.fieldNames config set, ∀ name values,
    (name, values) ∈ owner.enums config set →
      field ≠ name ∧ ∀ symbol ∈ values.symbols, field ≠ valueName name symbol

/-- Where one enum of the owner's message gets the name of another one with a suffix, no symbol of
that other one is such a suffix with a symbol of the first. -/
def SuffixesApart (config : Config) (set : DirectorySet) (owner : Owner) : Prop :=
  ∀ name values n values', (name, values) ∈ owner.enums config set →
    (numbered name n, values') ∈ owner.enums config set →
      ∀ symbol ∈ values.symbols, ∀ symbol' ∈ values'.symbols,
        symbol ≠ valueName (Nat.repr n) symbol'

end Owner

/-- Where one shared enum has the name of another one with a suffix, no symbol of that other one is
the suffix, alone or with a symbol of the first. -/
def GeneratedRecords.SuffixesApart (records : GeneratedRecords) : Prop :=
  ∀ enum ∈ records.enums, ∀ other ∈ records.enums, ∀ n, other.name = numbered enum.name n →
    ∀ symbol ∈ enum.values.symbols, symbol ≠ Nat.repr n ∧
      ∀ symbol' ∈ other.values.symbols, symbol ≠ valueName (Nat.repr n) symbol'

/-!
## Embedded enums
-/

/-- Enums are named after words without underscores. -/
theorem Owner.fromWord_of_mem_enums (hnames : tree.WellNamed) (howner : owner ∈ tree.owners config)
    {name : String} {values : EnumTable}
    (h : (name, values) ∈ owner.enums config (tree.directories config)) : FromWord name := by
  obtain ⟨leaf, hleaf, _, hmade⟩ := exists_leaf_of_mem_enums h
  exact ⟨_, underscore_notMem_pascalCase
    (hnames.name (Tree.hasSite_of_mem_fields howner hleaf)), hmade⟩

/-- The values of a message's enums have different names exactly if suffixes and symbols do not
meet. -/
theorem Message.ScopeOf.values_iff (h : message.ScopeOf config (tree.directories config) owner)
    (hnames : tree.WellNamed) (howner : owner ∈ tree.owners config) :
    (∀ name values other values', message.enums.find? name = some values →
      message.enums.find? other = some values' → name ≠ other →
        ValuesApart name other values values') ↔
      owner.SuffixesApart config (tree.directories config) := by
  have hword : ∀ {name values}, message.enums.find? name = some values → FromWord name :=
    fun hfind => Owner.fromWord_of_mem_enums hnames howner (h.enums.1 hfind)
  constructor
  · intro hapart name values n values' hmem hmem' symbol hsymbol symbol' hsymbol' heq
    refine hapart name values _ values' (h.enums.2 hmem) (h.enums.2 hmem')
      (numbered_ne_self name n).symm symbol hsymbol symbol' hsymbol' ?_
    rw [valueName_numbered, heq]
  · intro hsuffixes name values other values' hfind hfind' hne symbol hsymbol symbol' hsymbol' heq
    rcases (valueName_eq_iff (hword hfind) (hword hfind') hne).1 heq with
      ⟨n, rfl, hmeet⟩ | ⟨n, rfl, hmeet⟩
    · exact hsuffixes name values n values' (h.enums.1 hfind) (h.enums.1 hfind') symbol hsymbol
        symbol' hsymbol' hmeet
    · exact hsuffixes other values' n values (h.enums.1 hfind') (h.enums.1 hfind) symbol' hsymbol'
        symbol hsymbol hmeet

theorem Message.ScopeOf.scopeApart_iff (h : message.ScopeOf config (tree.directories config) owner)
    (hnames : tree.WellNamed) (howner : owner ∈ tree.owners config) :
    message.ScopeApart ↔ owner.FieldsApart config (tree.directories config) ∧
      owner.SuffixesApart config (tree.directories config) := by
  rw [← h.values_iff hnames howner]
  have hfields : (∀ field ∈ message.fields, ∀ name values,
      message.enums.find? name = some values → field.name ≠ name ∧
        ∀ symbol ∈ values.symbols, field.name ≠ valueName name symbol) ↔
      owner.FieldsApart config (tree.directories config) := by
    rw [Owner.FieldsApart, ← h.fields, List.forall_mem_map]
    simp only [← h.enums]
  rw [← hfields]
  exact ⟨fun hapart => ⟨hapart.fields, hapart.values⟩, fun hapart => ⟨hapart.1, hapart.2⟩⟩

/-- Fields that start with lower-case letters keep apart from enums and values, which do not. -/
theorem Owner.fieldsApart_of_startsLow
    (h : ∀ site ∈ owner.fields config set, startsLow site.name = true) :
    owner.FieldsApart config set := by
  intro field hfield name values hmem
  obtain ⟨site, hsite, hmade⟩ :=
    exists_mem_left_of_forall₂ (owner.forall₂_fieldNames config set) hfield
  have hlow := hmade.startsLow (startsLow_sanitize (h site hsite))
  obtain ⟨leaf, _, _, hmade'⟩ := exists_leaf_of_mem_enums hmem
  have hname := startsLow_of_madeFrom hmade' (startsLow_pascalCase leaf.name)
  refine ⟨fun heq => ?_, fun symbol _ heq => ?_⟩
  · rw [heq, hname] at hlow
    cases hlow
  · have hvalue : startsLow (valueName name symbol) = false := by
      rw [valueName_eq_append]
      exact startsLow_append hname (startsLow_underscore_append _)
    rw [heq, hvalue] at hlow
    cases hlow

theorem Owner.suffixesApart_of_startsWithDigit
    (h : ∀ name values, (name, values) ∈ owner.enums config set →
      ∀ symbol ∈ values.symbols, startsWithDigit symbol = false) :
    owner.SuffixesApart config set := by
  intro name values n values' hmem _ symbol hsymbol symbol' _
  rw [valueName_eq_append]
  exact ne_repr_append (h name values hmem symbol hsymbol) n _

namespace GeneratedRecords

/-!
## Shared enums
-/

theorem Traced.fromWord_of_mem_enums (h : records.Traced config tree start final)
    (hnames : tree.WellNamed) {enum : PackageEnum} (henum : enum ∈ records.enums) :
    FromWord enum.name := by
  obtain ⟨source, ⟨leaf, type, hasks, hsource⟩, hmade⟩ := h.exists_source henum
  obtain ⟨owner, howner, hleaf⟩ := hasks.emitted
  rw [Tree.owners_directories h.root h.slashFree] at howner
  exact ⟨_, underscore_notMem_pascalCase
    (hnames.source (Tree.hasSite_of_mem_fields howner hleaf) hasks.type hsource), hmade⟩

/-- Shared enums and their values have different names exactly if suffixes and symbols do not
meet. -/
theorem Traced.shared_iff (h : records.Traced config tree start final) (hnames : tree.WellNamed) :
    (∀ enum ∈ records.enums, ∀ other ∈ records.enums, enum.name ≠ other.name →
      (∀ symbol ∈ enum.values.symbols, valueName enum.name symbol ≠ other.name) ∧
        ValuesApart enum.name other.name enum.values other.values) ↔ records.SuffixesApart := by
  have hword : ∀ {enum}, enum ∈ records.enums → FromWord enum.name :=
    fun henum => h.fromWord_of_mem_enums hnames henum
  constructor
  · intro hapart enum henum other hother n hname symbol hsymbol
    have hne : enum.name ≠ other.name := fun heq =>
      numbered_ne_self enum.name n (hname.symm.trans heq.symm)
    obtain ⟨henums, hvalues⟩ := hapart enum henum other hother hne
    refine ⟨fun heq => henums symbol hsymbol ?_, fun symbol' hsymbol' heq => ?_⟩
    · exact (valueName_eq_enum_iff (hword henum) (hword hother)).2 ⟨n, hname, heq⟩
    · exact hvalues symbol hsymbol symbol' hsymbol'
        ((valueName_eq_iff (hword henum) (hword hother) hne).2 (Or.inl ⟨n, hname, heq⟩))
  · intro hsuffixes enum henum other hother hne
    refine ⟨fun symbol hsymbol heq => ?_, fun symbol hsymbol symbol' hsymbol' heq => ?_⟩
    · obtain ⟨n, hname, hmeet⟩ :=
        (valueName_eq_enum_iff (hword henum) (hword hother)).1 heq
      exact (hsuffixes enum henum other hother n hname symbol hsymbol).1 hmeet
    · rcases (valueName_eq_iff (hword henum) (hword hother) hne).1 heq with
        ⟨n, hname, hmeet⟩ | ⟨n, hname, hmeet⟩
      · exact (hsuffixes enum henum other hother n hname symbol hsymbol).2 symbol' hsymbol' hmeet
      · exact (hsuffixes other hother enum henum n hname symbol' hsymbol').2 symbol hsymbol hmeet

theorem suffixesApart_of_startsWithDigit
    (h : ∀ enum ∈ records.enums, ∀ symbol ∈ enum.values.symbols,
      startsWithDigit symbol = false) : records.SuffixesApart := by
  intro enum henum other _ n _ symbol hsymbol
  have hdigit := h enum henum symbol hsymbol
  refine ⟨fun heq => ne_repr_append hdigit n "" (by rw [heq, String.append_empty]),
    fun symbol' _ => ?_⟩
  rw [valueName_eq_append]
  exact ne_repr_append hdigit n _

/-!
## Runs
-/

theorem Traced.scopesApart_iff (h : records.Traced config tree start final)
    (hnames : tree.WellNamed) :
    records.ScopesApart ↔
      (∀ owner ∈ tree.owners config, owner.FieldsApart config (tree.directories config) ∧
        owner.SuffixesApart config (tree.directories config)) ∧ records.SuffixesApart := by
  rw [← h.shared_iff hnames]
  have hmessages : (∀ placed ∈ records.messages, placed.2.ScopeApart) ↔
      ∀ owner ∈ tree.owners config, owner.FieldsApart config (tree.directories config) ∧
        owner.SuffixesApart config (tree.directories config) := by
    constructor
    · intro hapart owner howner
      have hemitted := howner
      rw [← Tree.owners_directories h.root h.slashFree] at hemitted
      obtain ⟨package, message, hmakes⟩ := h.named.exists_makes hemitted
      exact ((h.named.scopeOf hmakes).scopeApart_iff hnames howner).1
        (hapart _ (List.of_mem_zip hmakes).2)
    · rintro howners ⟨package, message⟩ hmem
      obtain ⟨owner, hmakes⟩ := h.named.exists_owner (mem_messages_iff.1 hmem)
      have howner := (h.place?_of_makes hmakes).1
      exact ((h.named.scopeOf hmakes).scopeApart_iff hnames howner).2 (howners owner howner)
  rw [← hmessages]
  exact ⟨fun hapart => ⟨hapart.messages, hapart.shared⟩, fun hapart => ⟨hapart.1, hapart.2⟩⟩

theorem Traced.scopesApart_of_startsLow (h : records.Traced config tree start final)
    (hnames : tree.WellNamed)
    (hlow : ∀ owner ∈ tree.owners config,
      ∀ site ∈ owner.fields config (tree.directories config), startsLow site.name = true)
    (hdigit : ∀ symbol ∈ records.symbols, startsWithDigit symbol = false) :
    records.ScopesApart := by
  refine (h.scopesApart_iff hnames).2 ⟨fun owner howner => ?_, ?_⟩
  · refine ⟨Owner.fieldsApart_of_startsLow (hlow owner howner),
      Owner.suffixesApart_of_startsWithDigit fun name values hmem symbol hsymbol => hdigit _ ?_⟩
    rw [← Tree.owners_directories h.root h.slashFree] at howner
    obtain ⟨package, message, hmakes⟩ := h.named.exists_makes howner
    have hfind := (h.named.scopeOf hmakes).enums.2 hmem
    have hvalues : values ∈ message.enums.values :=
      List.mem_map.2 ⟨_, (SortedMap.mem_entries_iff _ _ _).2 hfind, rfl⟩
    exact List.mem_append_left _ (List.mem_flatMap.2
      ⟨_, (List.of_mem_zip hmakes).2, List.mem_flatMap.2 ⟨values, hvalues, hsymbol⟩⟩)
  · refine suffixesApart_of_startsWithDigit fun enum henum symbol hsymbol => hdigit _ ?_
    exact List.mem_append_right _ (List.mem_flatMap.2 ⟨enum, henum, hsymbol⟩)

end GeneratedRecords

/-- Where all names are those that a schema may use, the names in each scope are different exactly
if no field gets the name of an enum or value of its message, and no symbol of an enum makes up for
the suffix by which another enum differs in its name. So they are if all fields start with
lower-case letters and no symbol starts with a digit. -/
theorem Tree.scopes_apart_iff {declared : Node} {tree : Tree}
    (htree : Tree.ofNode declared = .ok tree) (hnames : tree.WellNamed) {config : Config}
    {sources : Sources} {ledger : Ledger} {output : Output}
    (h : (tree.generate config sources ledger).1 = .ok output) :
    ∃ records, (tree.generateRecords config ledger).1 = .ok records ∧
      output = records.output config sources ∧
      (records.ScopesApart ↔
        (∀ owner ∈ tree.owners config, owner.FieldsApart config (tree.directories config) ∧
          owner.SuffixesApart config (tree.directories config)) ∧ records.SuffixesApart) ∧
      ((∀ owner ∈ tree.owners config, ∀ site ∈ owner.fields config (tree.directories config),
          startsLow site.name = true) →
        (∀ symbol ∈ records.symbols, startsWithDigit symbol = false) → records.ScopesApart) := by
  obtain ⟨records, start, final, hrecords, houtput, htraced⟩ :=
    exists_traced_of_generate (distinct_root htree) hnames.slashFree h
  exact ⟨records, hrecords, houtput, htraced.scopesApart_iff hnames,
    htraced.scopesApart_of_startsLow hnames⟩

theorem Tree.scopes_apart_iff_two_enums :
    let declared := Node.module "m" [Node.container "top"
      [Node.leaf "admin" (LeafType.enumeration [⟨"UP", 0⟩, ⟨"DOWN", 1⟩]),
        Node.leaf "oper" (LeafType.typedefEnum "state" [⟨"UP", 0⟩, ⟨"DOWN", 1⟩])]]
    let tree := Tree.copyOf declared
    Tree.ofNode declared = .ok tree ∧ tree.WellNamed ∧
      ∃ output, (tree.generate {} {} ∅).1 = .ok output ∧
      ∃ records, (tree.generateRecords {} ∅).1 = .ok records ∧ output = records.output {} {} ∧
        (records.ScopesApart ↔
          (∀ owner ∈ tree.owners {}, owner.FieldsApart {} (tree.directories {}) ∧
            owner.SuffixesApart {} (tree.directories {})) ∧ records.SuffixesApart) ∧
        ((∀ owner ∈ tree.owners {}, ∀ site ∈ owner.fields {} (tree.directories {}),
            startsLow site.name = true) →
          (∀ symbol ∈ records.symbols, startsWithDigit symbol = false) →
            records.ScopesApart) := by
  intro declared tree
  have htree : Tree.ofNode declared = .ok tree :=
    Tree.ofNode_eq rfl (by decide +kernel)
  have hnames : tree.WellNamed := by decide +kernel
  have hsome : (tree.generate {} {} ∅).1.toOption.isSome = true := by decide +kernel
  obtain ⟨output, hrun⟩ := exists_eq_ok_of_isSome hsome
  exact ⟨htree, hnames, output, hrun, Tree.scopes_apart_iff htree hnames hrun⟩

/-- The field of a leaf `State` whose enumeration is written in place has the name of its enum. -/
theorem Tree.not_scopes_apart :
    let declared := Node.module "m" [Node.container "top"
      [Node.leaf "State" (LeafType.enumeration [⟨"UP", 0⟩, ⟨"DOWN", 1⟩])]]
    let tree := Tree.copyOf declared
    Tree.ofNode declared = .ok tree ∧ tree.WellNamed ∧
      ∃ output, (tree.generate {} {} ∅).1 = .ok output ∧
      ∃ records, (tree.generateRecords {} ∅).1 = .ok records ∧ output = records.output {} {} ∧
        ¬ records.ScopesApart := by
  intro declared tree
  have htree : Tree.ofNode declared = .ok tree :=
    Tree.ofNode_eq rfl (by decide +kernel)
  have hnames : tree.WellNamed := by decide +kernel
  have hsome : (tree.generate {} {} ∅).1.toOption.isSome = true := by decide +kernel
  obtain ⟨output, hrun⟩ := exists_eq_ok_of_isSome hsome
  obtain ⟨records, hrecords, rfl⟩ := Tree.exists_records_of_generate hrun
  have hrecords := congrArg Prod.fst hrecords
  refine ⟨htree, hnames, _, hrun, records, hrecords, rfl, fun hapart => ?_⟩
  have hboth : (tree.generateRecords {} ∅).1.toOption.map (fun records =>
      records.messages.any fun placed => placed.2.fields.any (fun field => field.name == "State") &&
        placed.2.enums.contains "State") = some true := by decide +kernel
  rw [hrecords] at hboth
  obtain ⟨placed, hplaced, hmessage⟩ := List.any_eq_true.1 (Option.some.inj hboth)
  obtain ⟨hfield, henum⟩ := Bool.and_eq_true_iff.1 hmessage
  obtain ⟨field, hmem, hname⟩ := List.any_eq_true.1 hfield
  obtain ⟨values, hvalues⟩ := (SortedMap.contains_iff _ _).1 henum
  refine ((hapart.messages placed hplaced).fields field hmem _ values hvalues).1 ?_
  exact eq_of_beq hname

end YangToProto

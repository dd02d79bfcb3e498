import Mathlib.Data.List.Nodup
import YangToProto.Proofs.Generation.Records

/-!
# Tables of shared enums

A shared enum is built from the type of the leaf that asks for it first. Other leaves with the same
key, which names a typedef or an identity base, refer to the same enum, whatever members, identities
and default their own types have. So every leaf finds its own table in the enum that it refers to
exactly if any two emitted leaves with one key have one table (`Tree.tables_agree_iff`).
-/

namespace YangToProto

variable {config : Config} {tree : Tree} {registry : Registry} {records : GeneratedRecords}

namespace LeafType

/-- Whether the type is an enumeration declared as a typedef, or refers to an identity base. -/
def isNamedEnum (type : LeafType) : Bool :=
  match type.kind with
  | .enumeration _ => !type.isInlineEnum
  | .identityref _ => true
  | _ => false

def enumTable (path : String) (type : LeafType) : Except GenerationError EnumTable :=
  match type.kind with
  | .identityref base => base.enumValues
  | _ => type.enumerationValues path

theorem isShared_of_isNamedEnum {type : LeafType} (h : type.isNamedEnum = true) :
    type.isShared = true := by
  rw [isNamedEnum] at h
  rw [isShared]
  cases hkind : type.kind with
  | enumeration members => simpa [hkind] using h
  | identityref base => rfl
  | scalar s => simp [hkind] at h
  | union members => simp [hkind] at h

end LeafType

/-- A message of the records has a field for a leaf of an enumerated type that goes by a name. -/
def GeneratedRecords.EmitsNamed (config : Config) (tree : Tree) (records : GeneratedRecords)
    (leaf : Site) (type : LeafType) (field : Field) : Prop :=
  leaf.kind.isLeaf = true ∧ leaf.node.type = some type ∧ type.isNamedEnum = true ∧
    records.HasField config tree leaf field

/-- Each such leaf refers to a shared enum that has the table of the leaf's own type. -/
def GeneratedRecords.TablesAgree (config : Config) (tree : Tree) (records : GeneratedRecords) :
    Prop :=
  ∀ leaf type field, records.EmitsNamed config tree leaf type field →
    ∃ enum ∈ records.enums, field.typeName = Package.dotted [config.enumPackage, enum.name] ∧
      type.enumTable leaf.pathText = .ok enum.values

/-!
## Building enums
-/

theorem SharedEnum.table_build {definition : SharedEnum} {enum : PackageEnum}
    (h : definition.build = .ok enum) :
    definition.type.isNamedEnum = true ∧
      definition.type.enumTable definition.sourcePath = .ok enum.values := by
  rw [build] at h
  rw [LeafType.isNamedEnum, LeafType.enumTable]
  cases hkind : definition.type.kind with
  | identityref base =>
      simp only [hkind] at h
      cases hvalues : base.enumValues with
      | ok values =>
          rw [hvalues] at h
          cases h
          exact ⟨rfl, hvalues⟩
      | error fault =>
          rw [hvalues] at h
          cases h
  | enumeration members =>
      simp only [hkind] at h
      split at h
      · cases h
      · rename_i hinline
        cases hvalues : definition.type.enumerationValues definition.sourcePath with
        | ok values =>
            rw [hvalues] at h
            cases h
            exact ⟨by simpa using hinline, rfl⟩
        | error fault =>
            rw [hvalues] at h
            cases h
  | union members =>
      simp only [hkind] at h
      split at h <;> cases h
  | scalar s =>
      simp only [hkind] at h
      cases h

/-- Every definition of the registry has been built. -/
theorem Registry.exists_built {enums : List PackageEnum}
    (h : registry.buildSharedEnums = .ok enums) {name : String} {definition : SharedEnum}
    (hfind : registry.sharedEnums.find? name = some definition) :
    ∃ enum ∈ enums, definition.build = .ok enum := by
  have hvalue : definition ∈ registry.sharedEnums.values :=
    List.mem_map.2 ⟨_, (SortedMap.mem_entries_iff _ _ _).2 hfind, rfl⟩
  have hbuilt := GenerationErrors.gather_eq_ok_iff.1 h
  have hmem := List.mem_map_of_mem (f := fun definition : SharedEnum =>
    definition.build.mapError fun error => [error]) hvalue
  rw [hbuilt] at hmem
  obtain ⟨enum, henum, hsame⟩ := List.mem_map.1 hmem
  cases hbuild : definition.build with
  | ok built =>
      rw [hbuild] at hsame
      cases hsame
      exact ⟨enum, henum, rfl⟩
  | error fault =>
      rw [hbuild] at hsame
      cases hsame

namespace GeneratedRecords

/-- A field for a leaf of a shared type refers to the enum that the registry has for it. -/
theorem NamedBy.typeName_of_isShared (h : records.NamedBy config tree registry) {leaf : Site}
    {type : LeafType} {field : Field} (hkind : leaf.kind.isLeaf = true)
    (htype : leaf.node.type = some type) (hshared : type.isShared = true)
    (hfield : records.HasField config tree leaf field) :
    ∃ name, registry.enumNames.find? (type.enumKey leaf.pathText) = some name ∧
      field.typeName = Package.dotted [config.enumPackage, name] := by
  obtain ⟨package, imports, wanted, hfor, hshown⟩ := h.for_of_hasField hfield
  obtain ⟨name, hname, rfl⟩ := hfor.eq_of_isShared hkind htype hshared
  exact ⟨name, hname, hshown.1⟩

/-- The enum of a name is built from a leaf with the same key, and a message has a field for that
leaf. -/
theorem NamedBy.exists_first (h : records.NamedBy config tree registry) {key name : String}
    (hname : registry.enumNames.find? key = some name) :
    ∃ enum ∈ records.enums, enum.name = name ∧ ∃ leaf type field,
      records.EmitsNamed config tree leaf type field ∧ type.enumKey leaf.pathText = key ∧
      type.enumTable leaf.pathText = .ok enum.values := by
  obtain ⟨definition, hfind, hkey⟩ := h.traced.traced hname
  obtain ⟨leaf, hasks, hpath⟩ := h.traced.asked hfind
  obtain ⟨enum, henum, hbuild⟩ := Registry.exists_built h.enums hfind
  obtain ⟨hnamed, htable⟩ := SharedEnum.table_build hbuild
  obtain ⟨owner, howner, hleaf⟩ := hasks.emitted
  obtain ⟨field, hfield⟩ := h.exists_field howner hleaf
  have hsame := (SharedEnum.name_build hbuild).trans (h.traced.recorded.named hfind)
  rw [← hpath] at hkey htable
  exact ⟨enum, henum, hsame, leaf, definition.type, field,
    ⟨hasks.isLeaf, hasks.type, hnamed, hfield⟩, hkey, htable⟩

/-- Enums of one name are the same. -/
theorem NamedBy.enum_eq_of_name_eq (h : records.NamedBy config tree registry)
    {enum other : PackageEnum} (henum : enum ∈ records.enums) (hother : other ∈ records.enums)
    (hname : enum.name = other.name) : enum = other := by
  have hnodup : (records.enums.map PackageEnum.name).Nodup := by
    rw [Registry.names_buildSharedEnums h.traced.recorded h.enums]
    exact registry.sharedEnums.nodup_keys
  exact List.inj_on_of_nodup_map hnodup henum hother hname

/-- Tables agree exactly if leaves with one key have one table. -/
theorem NamedBy.tablesAgree_iff (h : records.NamedBy config tree registry) :
    records.TablesAgree config tree ↔
      ∀ leaf type field leaf' type' field', records.EmitsNamed config tree leaf type field →
        records.EmitsNamed config tree leaf' type' field' →
        type.enumKey leaf.pathText = type'.enumKey leaf'.pathText →
        type.enumTable leaf.pathText = type'.enumTable leaf'.pathText := by
  have hrefers : ∀ {leaf type field}, records.EmitsNamed config tree leaf type field →
      ∃ name, registry.enumNames.find? (type.enumKey leaf.pathText) = some name ∧
        field.typeName = Package.dotted [config.enumPackage, name] :=
    fun hemits => h.typeName_of_isShared hemits.1 hemits.2.1
      (LeafType.isShared_of_isNamedEnum hemits.2.2.1) hemits.2.2.2
  constructor
  · intro hagree leaf type field leaf' type' field' hemits hemits' hkey
    obtain ⟨enum, henum, htype, htable⟩ := hagree leaf type field hemits
    obtain ⟨other, hother, htype', htable'⟩ := hagree leaf' type' field' hemits'
    obtain ⟨name, hname, hrefer⟩ := hrefers hemits
    obtain ⟨name', hname', hrefer'⟩ := hrefers hemits'
    rw [hkey, hname', Option.some.injEq] at hname
    -- both fields have the type name that the registry has for their key
    have hsame : enum.name = other.name := by
      refine (String.append_right_inj (config.enumPackage ++ ".")).1 ?_
      rw [hname] at hrefer'
      exact (htype.symm.trans hrefer).trans (hrefer'.symm.trans htype')
    rw [htable, htable', h.enum_eq_of_name_eq henum hother hsame]
  · intro hone leaf type field hemits
    obtain ⟨name, hname, hrefer⟩ := hrefers hemits
    obtain ⟨enum, henum, rfl, leaf', type', field', hemits', hkey, htable⟩ := h.exists_first hname
    refine ⟨enum, henum, hrefer, ?_⟩
    rw [hone leaf type field leaf' type' field' hemits hemits' hkey.symm, htable]

end GeneratedRecords

/-- In a run that succeeds, every leaf whose type is an enumeration of a typedef or refers to an
identity base refers to an enum with the table of its own type, exactly if any two such leaves with
one key have one table. -/
theorem Tree.tables_agree_iff {config : Config} {sources : Sources} {tree : Tree}
    {ledger : Ledger} {output : Output}
    (h : (tree.generate config sources ledger).1 = .ok output) :
    ∃ records, (tree.generateRecords config ledger).1 = .ok records ∧
      output = records.output config sources ∧
      (records.TablesAgree config tree ↔
        ∀ leaf type field leaf' type' field', records.EmitsNamed config tree leaf type field →
          records.EmitsNamed config tree leaf' type' field' →
          type.enumKey leaf.pathText = type'.enumKey leaf'.pathText →
          type.enumTable leaf.pathText = type'.enumTable leaf'.pathText) := by
  obtain ⟨records, hrecords, rfl⟩ := Tree.exists_records_of_generate h
  obtain ⟨start, final, _, _, hnamed⟩ := Tree.exists_namedBy_of_generateRecords hrecords
  exact ⟨records, congrArg Prod.fst hrecords, rfl, hnamed.tablesAgree_iff⟩

theorem Tree.tables_agree_iff_two_leaves :
    let state := LeafType.typedefEnum "admin-state" [⟨"ENABLED", 0⟩, ⟨"DISABLED", 1⟩]
    let declared := Node.module "m"
      [Node.container "top" [Node.leaf "a" state, Node.leaf "b" state]]
    let tree := Tree.copyOf declared
    ∃ output, (tree.generate {} {} ∅).1 = .ok output ∧
      ∃ records, (tree.generateRecords {} ∅).1 = .ok records ∧ output = records.output {} {} ∧
        (records.TablesAgree {} tree ↔
          ∀ leaf type field leaf' type' field', records.EmitsNamed {} tree leaf type field →
            records.EmitsNamed {} tree leaf' type' field' →
            type.enumKey leaf.pathText = type'.enumKey leaf'.pathText →
            type.enumTable leaf.pathText = type'.enumTable leaf'.pathText) := by
  intro state declared tree
  have hsome : (tree.generate {} {} ∅).1.toOption.isSome = true := by decide +kernel
  obtain ⟨output, hrun⟩ := exists_eq_ok_of_isSome hsome
  exact ⟨output, hrun, Tree.tables_agree_iff hrun⟩

/-- Two leaves of one typedef with different defaults share an enum, and its value 0 is the default
of the first one. -/
theorem Tree.not_tables_agree :
    let a := Node.leaf "a"
      ⟨"admin-state", .enumeration [⟨"ENABLED", 0⟩, ⟨"DISABLED", 1⟩], some "ENABLED"⟩
    let b := Node.leaf "b"
      ⟨"admin-state", .enumeration [⟨"ENABLED", 0⟩, ⟨"DISABLED", 1⟩], some "DISABLED"⟩
    let declared := Node.module "m" [Node.container "top" [a, b]]
    let tree := Tree.copyOf declared
    Tree.ofNode declared = .ok tree ∧
      ∃ output, (tree.generate {} {} ∅).1 = .ok output ∧
      ∃ records, (tree.generateRecords {} ∅).1 = .ok records ∧ output = records.output {} {} ∧
        ¬ records.TablesAgree {} tree := by
  intro a b declared tree
  have htree : Tree.ofNode declared = .ok tree :=
    Tree.ofNode_eq rfl (by decide +kernel)
  have hroot := Tree.distinct_root htree
  have hslash : tree.SlashFree := Tree.slashFree_of_sites (by decide +kernel)
  have hsome : (tree.generate {} {} ∅).1.toOption.isSome = true := by decide +kernel
  obtain ⟨output, hrun⟩ := exists_eq_ok_of_isSome hsome
  obtain ⟨records, hrecords, houtput⟩ := Tree.exists_records_of_generate hrun
  obtain ⟨start, final, _, _, hnamed⟩ := Tree.exists_namedBy_of_generateRecords hrecords
  refine ⟨htree, output, hrun, records, congrArg Prod.fst hrecords, houtput, fun hagree => ?_⟩
  let top : Site := ⟨Node.container "top" [a, b], [declared]⟩
  have htop : tree.HasSite top := Site.Under.self.step List.mem_cons_self
  have ha : tree.HasSite (top.below a) := htop.step List.mem_cons_self
  have hb : tree.HasSite (top.below b) := htop.step (List.mem_cons_of_mem _ List.mem_cons_self)
  obtain ⟨field, hfield⟩ :=
    hnamed.exists_field_of_path hroot hslash htop rfl ha (by decide +kernel)
  obtain ⟨field', hfield'⟩ :=
    hnamed.exists_field_of_path hroot hslash htop rfl hb (by decide +kernel)
  have hsame := hnamed.tablesAgree_iff.1 hagree _ _ _ _ _ _ ⟨rfl, rfl, rfl, hfield⟩
    ⟨rfl, rfl, rfl, hfield'⟩ rfl
  exact absurd hsame (by decide +kernel)

end YangToProto

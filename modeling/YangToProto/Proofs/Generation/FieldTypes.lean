import YangToProto.Proofs.Naming.Places

/-!
# What field types refer to

`Registry.Knows` lists what a type name may be, as long as it is not an enum of the field's own
message: an entry of a scalar table, the place of a message of the tree, or a recorded shared enum.
A later registry knows what an earlier one knew.

Mapping the type of a leaf yields a name that the registry knows when the mapping is done, or an
enum to be embedded (`Site.knows_leafField`, `Site.knows_keyField`).
-/

namespace YangToProto

/-- The table has the type name as an entry. -/
def ScalarTable.HasEntry (table : ScalarTable) (entry : String) : Prop :=
  ∃ s, table.scalar? s = some entry

variable {config : Config} {tree : Tree} {table : ScalarTable} {registry middle after : Registry}

/-- The type names that stand for something outside the message that uses them. -/
inductive Registry.Knows (config : Config) (tree : Tree) (table : ScalarTable)
    (registry : Registry) : String → Prop where
  | scalar {entry : String} (h : table.HasEntry entry) : Knows config tree table registry entry
  | message {owner : Owner} {package name : String} (howner : owner ∈ tree.owners config)
      (hplace : registry.place? config.compressPaths owner = some (package, name)) :
      Knows config tree table registry (Package.dotted [package, name])
  | sharedEnum {name : String} (h : registry.sharedEnums.contains name = true) :
      Knows config tree table registry s!"{config.enumPackage}.{name}"

theorem Registry.Extends.contains_sharedEnums (h : registry.Extends after) {name : String}
    (hname : registry.sharedEnums.contains name = true) :
    after.sharedEnums.contains name = true := by
  rw [SortedMap.contains_iff] at hname ⊢
  obtain ⟨definition, hfind⟩ := hname
  exact ⟨definition, h.sharedEnums _ _ hfind⟩

theorem Registry.Knows.of_extends {typeName : String}
    (hknows : registry.Knows config tree table typeName) (h : registry.Extends after) :
    after.Knows config tree table typeName := by
  cases hknows with
  | scalar hentry => exact .scalar hentry
  | message howner hplace => exact .message howner (h.place? hplace)
  | sharedEnum hname => exact .sharedEnum (h.contains_sharedEnums hname)

/-- The type refers to something of the given kind, unless it is an enum to be embedded. -/
def FieldType.Refers (P : String → Prop) : FieldType → Prop
  | reference typeName _ => P typeName
  | embedded _ _ => True

theorem FieldType.Refers.imp {P Q : String → Prop} {type : FieldType} (h : type.Refers P)
    (himp : ∀ typeName, P typeName → Q typeName) : type.Refers Q := by
  cases type with
  | reference typeName path => exact himp typeName h
  | embedded candidate values => trivial

/-!
## Shared enums
-/

theorem Registry.EnumsRecorded.withEnum (h : registry.EnumsRecorded) {definition : SharedEnum}
    (key : String) (count : Nat) :
    (registry.withEnum key definition count).EnumsRecorded where
  recorded := by
    intro other name hfind
    rw [Registry.withEnum, SortedMap.find?_insert] at hfind
    rw [Registry.withEnum, SortedMap.contains_insert, Bool.or_eq_true, decide_eq_true_iff]
    split at hfind
    · exact Or.inl (Option.some.inj hfind).symm
    · exact Or.inr (h.recorded hfind)
  named := by
    intro name found hfind
    rw [Registry.withEnum, SortedMap.find?_insert] at hfind
    split at hfind
    · rename_i heq
      cases hfind
      exact heq.symm
    · exact h.named hfind
  taken := by
    intro name hname
    rw [Registry.withEnum, SortedMap.contains_insert, Bool.or_eq_true, decide_eq_true_iff] at hname
    rw [Registry.withEnum, NameSet.contains_add, Bool.or_eq_true, decide_eq_true_iff]
    exact hname.imp_right h.taken

theorem Registry.extends_withEnum (h : registry.EnumsRecorded) {definition : SharedEnum}
    (hfree : registry.enumScope.contains definition.name = false) (key : String) (count : Nat) :
    registry.Extends (registry.withEnum key definition count) := by
  refine ⟨.refl _, .refl _, .refl _, SortedMap.included_insert ?_ definition⟩
  rw [← SortedMap.contains_eq_false_iff]
  cases hcontains : registry.sharedEnums.contains definition.name with
  | false => rfl
  | true =>
      rw [h.taken hcontains] at hfree
      cases hfree

theorem Registry.contains_sharedEnumName (h : registry.EnumsRecorded) {leafPath name : String}
    {type : LeafType} (hrun : sharedEnumName leafPath type registry = (name, after)) :
    registry.Extends after ∧ after.EnumsRecorded ∧ after.sharedEnums.contains name = true := by
  rcases sharedEnumName_cases hrun with ⟨hfind, rfl⟩ | ⟨_, hfree, count, rfl⟩
  · exact ⟨.refl _, h, h.recorded hfind⟩
  · refine ⟨extends_withEnum h hfree _ count, h.withEnum _ count, ?_⟩
    rw [Registry.withEnum, SortedMap.contains_insert]
    simp

/-!
## Scalars of unions
-/

namespace LeafType

theorem forall_addEntry {P : String → Prop} {found : List String} (h : ∀ entry ∈ found, P entry)
    {entry : String} (hentry : P entry) : ∀ other ∈ addEntry found entry, P other := by
  intro other hother
  rw [addEntry] at hother
  split at hother
  · exact h other hother
  · rcases List.mem_append.1 hother with hother | hother
    · exact h other hother
    · rw [List.mem_singleton.1 hother]
      exact hentry

mutual

theorem hasEntry_addScalars {leaf : Site} {found result : List String} (type : LeafType)
    (h : ∀ entry ∈ found, table.HasEntry entry)
    (hrun : addScalars table leaf found type = .ok result) :
    ∀ entry ∈ result, table.HasEntry entry := by
  obtain ⟨name, kind, default⟩ := type
  rw [addScalars] at hrun
  exact hasEntry_addKindScalars kind h hrun
termination_by structural type

theorem hasEntry_addKindScalars {leaf : Site} {found result : List String} {name : String}
    (kind : TypeKind) (h : ∀ entry ∈ found, table.HasEntry entry)
    (hrun : addKindScalars table leaf found name kind = .ok result) :
    ∀ entry ∈ result, table.HasEntry entry := by
  cases kind with
  | scalar s =>
      rw [addKindScalars] at hrun
      split at hrun
      · rename_i entry hentry
        cases hrun
        exact forall_addEntry h ⟨s, hentry⟩
      · cases hrun
  | enumeration members =>
      rw [addKindScalars] at hrun
      cases hrun
  | identityref base =>
      rw [addKindScalars] at hrun
      cases hrun
  | union members =>
      rw [addKindScalars] at hrun
      exact hasEntry_addAllScalars members h hrun
termination_by structural kind

theorem hasEntry_addAllScalars {leaf : Site} {found result : List String} (types : List LeafType)
    (h : ∀ entry ∈ found, table.HasEntry entry)
    (hrun : addAllScalars table leaf found types = .ok result) :
    ∀ entry ∈ result, table.HasEntry entry := by
  cases types with
  | nil =>
      cases hrun
      exact h
  | cons type rest =>
      rw [addAllScalars] at hrun
      cases hfirst : addScalars table leaf found type with
      | error fault =>
          rw [hfirst] at hrun
          cases hrun
      | ok more =>
          rw [hfirst] at hrun
          exact hasEntry_addAllScalars rest (hasEntry_addScalars type h hfirst) hrun
termination_by structural types

end

theorem hasEntry_mapUnion {leaf : Site} {type : LeafType} {members : List LeafType}
    {mapped : MappedType} (hrun : mapUnion table leaf type members = .ok mapped) :
    table.HasEntry mapped.typeName := by
  rw [mapUnion] at hrun
  cases hscalars : addAllScalars table leaf [] members with
  | error fault =>
      rw [hscalars] at hrun
      cases hrun
  | ok entries =>
      rw [hscalars] at hrun
      have hall := hasEntry_addAllScalars members (by simp) hscalars
      match entries, hall with
      | [], _ => cases hrun
      | [entry], hall =>
          cases hrun
          exact hall entry List.mem_cons_self
      | _ :: _ :: _, _ =>
          cases hrun
          exact ⟨.string, rfl⟩

/-!
## Types of leaves
-/

theorem knows_mapShared (h : registry.EnumsRecorded) {leaf : Site} {type : LeafType}
    {mapped : MappedType} (hrun : mapShared config leaf type registry = (mapped, after)) :
    registry.Extends after ∧ after.EnumsRecorded ∧
      after.Knows config tree table mapped.typeName := by
  change (MappedType.mk
      s!"{config.enumPackage}.{(Registry.sharedEnumName leaf.pathText type registry).1}" .enum
      (some config.enumImport), (Registry.sharedEnumName leaf.pathText type registry).2) =
    (mapped, after) at hrun
  cases hname : Registry.sharedEnumName leaf.pathText type registry with
  | mk name ended =>
      rw [hname] at hrun
      cases hrun
      obtain ⟨hextends, hrecorded, hcontains⟩ := Registry.contains_sharedEnumName h hname
      exact ⟨hextends, hrecorded, .sharedEnum hcontains⟩

theorem knows_resolve (h : registry.EnumsRecorded) {leaf : Site} {type : LeafType}
    {mapped : MappedType} (hrun : type.resolve config table leaf registry = (.ok mapped, after)) :
    registry.Extends after ∧ after.EnumsRecorded ∧
      (type.isInlineEnum = true ∨ after.Knows config tree table mapped.typeName) := by
  have hshared : (mapShared config leaf type : Naming MappedType) registry = (.ok mapped, after) →
      registry.Extends after ∧ after.EnumsRecorded ∧
        (type.isInlineEnum = true ∨ after.Knows config tree table mapped.typeName) := by
    intro hmap
    obtain ⟨hextends, hrecorded, hknows⟩ := knows_mapShared h (lift_state_eq_ok hmap)
    exact ⟨hextends, hrecorded, Or.inr hknows⟩
  rw [resolve] at hrun
  cases hkind : type.kind with
  | enumeration members =>
      rw [hkind] at hrun
      by_cases hinline : type.isInlineEnum = true
      · rw [if_pos hinline] at hrun
        obtain ⟨_, rfl⟩ := pure_eq_ok hrun
        exact ⟨.refl _, h, Or.inl hinline⟩
      · rw [if_neg hinline] at hrun
        exact hshared hrun
  | identityref base =>
      rw [hkind] at hrun
      exact hshared hrun
  | union members =>
      rw [hkind] at hrun
      dsimp only at hrun
      by_cases henum : type.containsEnum = true
      · rw [if_pos henum] at hrun
        exact hshared hrun
      · rw [if_neg henum] at hrun
        obtain ⟨hunion, rfl⟩ := lift_except_eq_ok hrun
        exact ⟨.refl _, h, Or.inr (.scalar (hasEntry_mapUnion hunion))⟩
  | scalar s =>
      rw [hkind] at hrun
      dsimp only at hrun
      cases hentry : table.scalar? s with
      | some entry =>
          rw [hentry] at hrun
          obtain ⟨rfl, rfl⟩ := pure_eq_ok hrun
          exact ⟨.refl _, h, Or.inr (.scalar ⟨s, hentry⟩)⟩
      | none =>
          rw [hentry] at hrun
          exact absurd hrun throw_ne_ok

theorem refers_fieldType {P : String → Prop} {leaf : Site} {type : LeafType} {mapped : MappedType}
    {result : FieldType} (h : type.isInlineEnum = true ∨ P mapped.typeName)
    (hrun : leaf.fieldType type mapped = .ok result) : result.Refers P := by
  rw [Site.fieldType] at hrun
  split at hrun
  · cases hvalues : type.enumerationValues leaf.pathText with
    | error fault =>
        rw [hvalues] at hrun
        cases hrun
    | ok values =>
        rw [hvalues] at hrun
        cases hrun
        trivial
  · rename_i hinline
    cases hrun
    exact h.resolve_left hinline

end LeafType

namespace Site

theorem knows_leafField (h : registry.EnumsRecorded) {leaf : Site} {type : FieldType}
    (hrun : leaf.leafField config registry = (.ok type, after)) :
    registry.Extends after ∧ after.EnumsRecorded ∧
      type.Refers (after.Knows config tree config.valueTable) := by
  rw [leafField] at hrun
  cases htype : leaf.node.type with
  | none =>
      rw [htype] at hrun
      exact absurd hrun throw_ne_ok
  | some leafType =>
      rw [htype] at hrun
      obtain ⟨mapped, middle, hmap, hrun⟩ := bind_eq_ok hrun
      obtain ⟨hfield, rfl⟩ := lift_except_eq_ok hrun
      obtain ⟨hextends, hrecorded, hknows⟩ := LeafType.knows_resolve h hmap
      exact ⟨hextends, hrecorded, LeafType.refers_fieldType hknows hfield⟩

theorem knows_mapKey (h : registry.EnumsRecorded) {leaf : Site} {type : LeafType}
    {mapped : MappedType} (hrun : type.mapKey config leaf registry = (.ok mapped, after)) :
    registry.Extends after ∧ after.EnumsRecorded ∧
      (type.isInlineEnum = true ∨ after.Knows config tree .plain mapped.typeName) := by
  rw [LeafType.mapKey] at hrun
  obtain ⟨resolved, middle, hresolve, hrun⟩ := bind_eq_ok hrun
  by_cases hunion : (resolved.kind == .union) = true
  · rw [if_pos hunion] at hrun
    obtain ⟨_, _, hthrow, _⟩ := bind_eq_ok hrun
    exact absurd hthrow throw_ne_ok
  · rw [if_neg hunion] at hrun
    obtain ⟨rfl, rfl⟩ := pure_eq_ok hrun
    exact LeafType.knows_resolve h hresolve

theorem knows_keyField (h : registry.EnumsRecorded) {set : DirectorySet} {list : Site}
    {key : String} {type : FieldType}
    (hrun : list.keyField config set key registry = (.ok type, after)) :
    registry.Extends after ∧ after.EnumsRecorded ∧
      type.Refers (after.Knows config tree .plain) := by
  rw [keyField] at hrun
  cases hleaf : list.keyLeaf? set key with
  | none =>
      rw [hleaf] at hrun
      exact absurd hrun throw_ne_ok
  | some leaf =>
      rw [hleaf] at hrun
      cases hkind : leaf.kind with
      | leaf =>
          cases htype : leaf.node.type with
          | some leafType =>
              simp only [hkind, htype] at hrun
              obtain ⟨mapped, middle, hmap, hrun⟩ := bind_eq_ok hrun
              obtain ⟨hfield, rfl⟩ := lift_except_eq_ok hrun
              obtain ⟨hextends, hrecorded, hknows⟩ := knows_mapKey h hmap
              exact ⟨hextends, hrecorded, LeafType.refers_fieldType hknows hfield⟩
          | none =>
              simp only [hkind, htype] at hrun
              exact absurd hrun throw_ne_ok
      | module | container | list | leafList | anydata =>
          simp only [hkind] at hrun
          exact absurd hrun throw_ne_ok

end Site

end YangToProto

import YangToProto.Proofs.Generation.KeyFaults
import YangToProto.Proofs.Generation.OwnMessages
import YangToProto.Proofs.Naming.PackageNames

/-!
# Key wrappers

Beside the message of a directory stands a key wrapper for each keyed list among its fields. It has
a field for every key of the list and one for the list's own message. A key is typed by the leaf
that the list's directory has for it, which compression may have brought up (`LeafType.KeyTyped`),
and never with an entry of the wrapper table, because the names of those entries hold one dot and
the types of keys none or more (`LeafType.KeyTyped.ne_wrapper`).
-/

namespace YangToProto

open Identifier

variable {config : Config} {set : DirectorySet} {tree : Tree} {registry after : Registry}
  {enums : SortedMap String EnumTable} {leaf list : Site} {type : LeafType} {typeName : String}

/-!
## Types of keys
-/

namespace LeafType

/-- What the field of a key leaf is typed with in a message with the enums: an enum of the message
that has the leaf's own values, a shared enum, or a plain scalar. -/
inductive KeyTyped (config : Config) (registry : Registry) (enums : SortedMap String EnumTable)
    (leaf : Site) (type : LeafType) : String → Prop
  | embedded {name : String} {values : EnumTable} (hinline : type.isInlineEnum = true)
      (hvalues : type.enumerationValues leaf.pathText = .ok values)
      (hfind : enums.find? name = some values) (hmade : MadeFrom (pascalCase leaf.name) name) :
      KeyTyped config registry enums leaf type name
  | sharedEnum {name : String} (hshared : type.isShared = true)
      (hname : registry.enumNames.find? (type.enumKey leaf.pathText) = some name) :
      KeyTyped config registry enums leaf type (Package.dotted [config.enumPackage, name])
  | scalar {s : Scalar} {entry : String} (hkind : type.kind = .scalar s)
      (hentry : ScalarTable.plain.scalar? s = some entry) :
      KeyTyped config registry enums leaf type entry
  | union {members : List LeafType} {entry : String} (hkind : type.kind = .union members)
      (henum : type.containsEnum = false) (huniform : Uniform .plain (allParts members) entry) :
      KeyTyped config registry enums leaf type entry

theorem uniform_of_mapUnion {table : ScalarTable} {members : List LeafType} {mapped : MappedType}
    (hrun : mapUnion table leaf type members = .ok mapped) (hkind : mapped.kind ≠ .union) :
    Uniform table (allParts members) mapped.typeName := by
  obtain ⟨hlacks, hempty, huniform, hdiffer⟩ := mapUnion_apply table leaf type members
  rcases parts_cases table (allParts members) with
    ⟨part, hpart⟩ | hparts | ⟨entry, hentry⟩ | ⟨hfind, hparts, hnone⟩
  · rw [hlacks part hpart] at hrun
    cases hrun
  · rw [hempty hparts] at hrun
    cases hrun
  · rw [huniform entry hentry] at hrun
    cases hrun
    exact hentry
  · rw [hdiffer hfind hparts hnone] at hrun
    cases hrun
    exact absurd rfl hkind

/-- A type that is not an enumeration in place is what resolving it yields. -/
theorem keyTyped_of_resolve {mapped : MappedType} (hinline : type.isInlineEnum = false)
    (hrun : type.resolve config .plain leaf registry = (.ok mapped, after))
    (hkind : mapped.kind ≠ .union) : type.KeyTyped config after enums leaf mapped.typeName := by
  rcases of_resolve hrun with ⟨hshared, name, hname, rfl⟩ | ⟨hshared, _⟩
  · exact .sharedEnum hshared hname
  · rw [isShared] at hshared
    cases hshape : type.kind with
    | enumeration members => simp [hshape, hinline] at hshared
    | identityref base => simp [hshape] at hshared
    | scalar s =>
        rw [resolve, hshape] at hrun
        dsimp only at hrun
        cases hentry : ScalarTable.plain.scalar? s with
        | some entry =>
            rw [hentry] at hrun
            obtain ⟨rfl, _⟩ := pure_eq_ok hrun
            exact .scalar hshape hentry
        | none =>
            rw [hentry] at hrun
            exact absurd hrun throw_ne_ok
    | union members =>
        rw [hshape] at hshared
        rw [resolve_union hshape hshared] at hrun
        exact .union hshape hshared (uniform_of_mapUnion (Prod.mk.inj hrun).1 hkind)

/-- The field of a key is typed as keys are, in the message that holds the enums it brings. -/
theorem keyTyped_of_mapKey {mapped : MappedType} {result : FieldType}
    (hmap : type.mapKey config leaf registry = (.ok mapped, after))
    (hfield : leaf.fieldType type mapped = .ok result) (hnamed : result.NamedIn enums typeName) :
    type.KeyTyped config after enums leaf typeName := by
  obtain ⟨hresolve, hkind⟩ := of_mapKey hmap
  rw [Site.fieldType] at hfield
  cases hinline : type.isInlineEnum with
  | false =>
      rw [hinline] at hfield
      cases hfield
      cases hnamed
      exact keyTyped_of_resolve hinline hresolve hkind
  | true =>
      rw [hinline, if_pos rfl] at hfield
      cases hvalues : type.enumerationValues leaf.pathText with
      | error fault =>
          rw [hvalues] at hfield
          cases hfield
      | ok values =>
          rw [hvalues] at hfield
          cases hfield
          cases hnamed with
          | embedded hmade hfind =>
              rw [typeName_of_isInlineEnum hinline hresolve] at hmade
              exact .embedded hinline hvalues hfind hmade

/-!
## Dots in types
-/

theorem count_dot_wrapper {s : Scalar} {entry : String}
    (h : ScalarTable.wrapper.scalar? s = some entry) : entry.toList.count '.' = 1 := by
  cases s <;> cases h <;> decide

theorem count_dot_plain {s : Scalar} {entry : String}
    (h : ScalarTable.plain.scalar? s = some entry) : entry.toList.count '.' = 0 := by
  cases s <;> cases h <;> decide

theorem count_dot_madeFrom {name other : String} (h : MadeFrom (pascalCase name) other) :
    other.toList.count '.' = 0 := by
  refine List.count_eq_zero.2 fun hmem => ?_
  have hallowed := isAllowed_of_madeFrom (fun c hc => isAllowed_of_mem_sanitize hc) h _ hmem
  exact absurd hallowed (by decide)

theorem count_dot_shared (config : Config) (name : String) :
    2 ≤ (Package.dotted [config.enumPackage, name]).toList.count '.' := by
  have htext : Package.dotted [config.enumPackage, name] = config.enumPackage ++ "." ++ name := rfl
  rw [htext, String.toList_append, String.toList_append, List.count_append, List.count_append,
    Config.toList_enumPackage, List.count_append, List.count_cons_self]
  have hdot : ".".toList.count '.' = 1 := by decide
  omega

/-- A key never has a type of the wrapper table. -/
theorem KeyTyped.ne_wrapper (h : type.KeyTyped config registry enums leaf typeName) (s : Scalar) :
    ScalarTable.wrapper.scalar? s ≠ some typeName := by
  intro hentry
  have hone := count_dot_wrapper hentry
  cases h with
  | embedded _ _ _ hmade => rw [count_dot_madeFrom hmade] at hone; cases hone
  | @sharedEnum name _ _ =>
      have htwo := count_dot_shared config name
      omega
  | scalar _ hplain => rw [count_dot_plain hplain] at hone; cases hone
  | union _ _ huniform =>
      obtain ⟨hne, hall⟩ := huniform
      obtain ⟨part, hpart⟩ := List.exists_mem_of_ne_nil _ hne
      have hplain := hall part hpart
      cases hshape : part.2 with
      | scalar s =>
          rw [hshape] at hplain
          rw [count_dot_plain hplain] at hone
          cases hone
      | enumeration _ | identityref _ | union _ =>
          rw [hshape] at hplain
          cases hplain

end LeafType

/-!
## The fields of a key wrapper
-/

/-- The field of a key wrapper for one key: it is made for the leaf that the list's directory has as
the field of that name. -/
structure Field.KeyOf (config : Config) (registry : Registry) (list : Site)
    (enums : SortedMap String EnumTable) (key : String) (field : Field) : Prop where
  name : MadeFrom (sanitize key) field.name
  repeated : field.repeated = false
  leaf : ∃ leaf type, (list.fields config.compressPaths).find? key = some leaf ∧
    leaf.kind = .leaf ∧ leaf.node.type = some type ∧
    type.KeyTyped config registry enums leaf field.typeName
  ne_wrapper : ∀ s, ScalarTable.wrapper.scalar? s ≠ some field.typeName

/-- The last field of a key wrapper refers to the list's own message. -/
structure Field.EntryOf (config : Config) (registry : Registry) (list : Site) (field : Field) :
    Prop where
  repeated : field.repeated = false
  type : ∃ home name, registry.place? config.compressPaths (.directory list) = some (home, name) ∧
    field.typeName = Package.dotted [home, name]

/-- The message is the key wrapper of a list, for a message of the package: the keys in declared
order and the list's message, under different names and tagged from 1 on. -/
structure Message.WrapperOf (config : Config) (registry : Registry) (package : String)
    (list : Site) (wrapper : Message) : Prop where
  kind : wrapper.kind = .listKey
  schemaPath : wrapper.schemaPath = list.pathText
  package : wrapper.package = package
  name : registry.name? (.keys list) = some wrapper.name
  names : (wrapper.fields.map Field.name).Nodup
  tags : wrapper.fields.map Field.tag =
    (List.range' 1 (list.node.key.length + 1)).map UInt32.ofNat
  numbers : list.node.key.length + 1 < 2 ^ 32 →
    wrapper.fields.map (fun field => field.tag.toNat) = List.range' 1 (list.node.key.length + 1)
  fields : ∃ keys entry, wrapper.fields = keys ++ [entry] ∧
    List.Forall₂ (Field.KeyOf config registry list wrapper.enums) list.node.key keys ∧
    entry.EntryOf config registry list

/-- A number of fields that fits 32 bits is the same when it is cut to them first. -/
theorem tagsFromOne_eq {count : Nat} (h : count < 2 ^ 32) :
    Site.tagsFromOne count = (List.range' 1 (UInt32.ofNat count).toNat).map UInt32.ofNat := by
  have hfits : (UInt32.ofNat count).toNat = count := UInt32.toNat_ofNat_of_lt' h
  rw [Site.tagsFromOne, hfits]

/-- Tags are numbers as long as these fit. -/
theorem map_toNat_tagsFromOne {count : Nat} (h : count < 2 ^ 32) :
    (Site.tagsFromOne count).map UInt32.toNat = List.range' 1 count := by
  rw [Site.tagsFromOne, List.map_map]
  refine (List.map_congr_left fun n hn => ?_).trans (List.map_id _)
  rw [List.mem_range'_1] at hn
  have hlt : n < UInt32.size := lt_of_lt_of_le (by omega) (Nat.succ_le_of_lt h)
  exact UInt32.toNat_ofNat_of_lt hlt

namespace Site

/-- On success a key is a field of the list's directory: a child that is no field is a container. -/
theorem find?_fields_of_keyLeaf? {key : String} (hlist : tree.HasSite list)
    (hmessage : list.isMessage config.compressPaths = true)
    (hfind : set.find? list.pathText = some (Directory.ofSite config.compressPaths list))
    (hleaf : list.keyLeaf? set key = some leaf) (hkind : leaf.kind = .leaf) :
    (list.fields config.compressPaths).find? key = some leaf := by
  rw [keyLeaf?_eq hfind] at hleaf
  cases hfield : (list.fields config.compressPaths).find? key with
  | some found =>
      rw [hfield] at hleaf
      exact hleaf
  | none =>
      rw [hfield, Option.none_or] at hleaf
      have helided := isElided_of_find?_eq_none hlist hmessage hfield hleaf
      simp [isElided, hkind] at helided

end Site

/-- The tagged fields of a scope have what the drafts say, and names made from theirs. -/
theorem Scope.forall₂_tagged {scope : Scope} {drafts : List FieldDraft} {tags : List UInt32}
    (hscope : scope = ofDrafts drafts) (hlength : tags.length = scope.fields.length) :
    List.Forall₂ (fun draft field => MadeFrom (sanitize draft.schemaName) field.name ∧
        draft.type.NamedIn scope.enums field.typeName ∧ field.repeated = draft.repeated)
      drafts (List.zipWith UntaggedField.withTag scope.fields tags) := by
  have hnames : List.Forall₂ MadeFrom (drafts.map fun draft => sanitize draft.schemaName)
      ((List.zipWith UntaggedField.withTag scope.fields tags).map Field.name) := by
    rw [(UntaggedField.map_zipWith_withTag hlength).1, hscope, names_ofDrafts]
    exact NameSet.forall₂_claimAll _ _
  have hholds : scope.Holds drafts := hscope ▸ holds_ofDrafts drafts
  refine forall₂_and (List.forall₂_map_left_iff.1 (List.forall₂_map_right_iff.1 hnames))
    ((forall₂_comp hholds.fields (UntaggedField.forall₂_withTag hlength)).imp ?_)
  rintro draft field ⟨untagged, hshown, tag, rfl⟩
  exact ⟨hshown.type, hshown.repeated⟩

theorem FieldType.NamedIn.eq_of_reference {wanted : String} {path : Option String}
    (h : (FieldType.reference wanted path).NamedIn enums typeName) : typeName = wanted := by
  cases h
  rfl

/-- A field that a key is drafted for is made for the leaf that the list's directory has. -/
theorem Site.keyOf_of_keyField {key : String} {result : FieldType} {field : Field}
    (hlist : tree.HasSite list) (hmessage : list.isMessage config.compressPaths = true)
    (hfind : set.find? list.pathText = some (Directory.ofSite config.compressPaths list))
    (hrun : list.keyField config set key registry = (.ok result, registry))
    (hname : MadeFrom (sanitize key) field.name) (hnamed : result.NamedIn enums field.typeName)
    (honce : field.repeated = false) : field.KeyOf config registry list enums key := by
  obtain ⟨leaf, type, mapped, hleaf, hkind, htype, hmap, hresult⟩ := mapKey_of_keyField hrun
  have htyped := LeafType.keyTyped_of_mapKey hmap hresult hnamed
  exact ⟨hname, honce, ⟨leaf, type, find?_fields_of_keyLeaf? hlist hmessage hfind hleaf hkind,
    hkind, htype, htyped⟩, htyped.ne_wrapper⟩

/-- In a registry that stays as it is, a key wrapper has the fields of its keys and of its list. -/
theorem Site.wrapperOf_keyWrapper {package listMessage listPackage : String} {wrapper : Message}
    (hlist : tree.HasSite list) (hmessage : list.isMessage config.compressPaths = true)
    (hfind : set.find? list.pathText = some (Directory.ofSite config.compressPaths list))
    (hplace : registry.place? config.compressPaths (.directory list) =
      some (listPackage, listMessage))
    (hrun : list.keyWrapper config set package listMessage listPackage registry =
      (.ok wrapper, registry)) :
    wrapper.WrapperOf config registry package list := by
  obtain ⟨name, keys, scope, hname, hkeys, hscope, rfl⟩ := keyWrapper_cases hrun
  have hdrafts := forall₂_keyField hkeys
  have hlength := length_tagsFromOne scope.fields.length
  have hfields := Scope.forall₂_tagged hscope hlength
  obtain ⟨hnames, htags⟩ := UntaggedField.map_zipWith_withTag hlength
  have hcount : scope.fields.length = list.node.key.length + 1 := by
    have hall := hfields.length_eq
    rw [List.length_append, List.length_singleton, ← hdrafts.length_eq, List.length_zipWith,
      hlength, Nat.min_self] at hall
    exact hall.symm
  obtain ⟨front, entry, hfront, hkeyed, -, hentryType, hentryOnce⟩ :=
    exists_append_of_forall₂ hfields
  have hnumbered : (List.zipWith UntaggedField.withTag scope.fields
      (tagsFromOne scope.fields.length)).map Field.tag =
        tagsFromOne (list.node.key.length + 1) := by rw [htags, hcount]
  exact
    { kind := rfl
      schemaPath := rfl
      package := rfl
      name := hname
      names := by
        rw [Scope.message, hnames, hscope, Scope.names_ofDrafts]
        exact NameSet.nodup_claimAll _ _
      tags := hnumbered
      numbers := fun hlt => by
        rw [← map_toNat_tagsFromOne hlt, ← hnumbered, List.map_map]
        rfl
      fields := by
        refine ⟨front, entry, hfront, ?_, hentryOnce, listPackage, listMessage, hplace,
          hentryType.eq_of_reference⟩
        refine (forall₂_comp hdrafts hkeyed).imp ?_
        rintro key field ⟨_, ⟨result, rfl, hkey⟩, hmade, hnamed, honce⟩
        exact keyOf_of_keyField hlist hmessage hfind hkey hmade hnamed honce }

/-!
## The key wrappers beside a message
-/

/-- Just the drafts of keyed lists bring a key wrapper. -/
theorem Site.isKeyedList_eq_of_draft {field : Site} {path package fieldName : String}
    {draft : FieldDraft}
    (hrun : field.draft config set path package fieldName registry = (.ok draft, after)) :
    field.node.isKeyedList = draft.wrapper.isSome := by
  rcases draft_cases hrun with ⟨_, hkeyed, hnone, _⟩ | ⟨_, hkeyed, hnone, _⟩ |
    ⟨hkeyed, _, _, _, _, _, hsome, _⟩
  · rw [hkeyed, hnone]
    rfl
  · rw [hkeyed, hnone]
    rfl
  · rw [hkeyed, hsome]
    rfl

/-- The field of a message for a keyed list refers to the key wrapper of that list. -/
structure Field.WrappedBy (config : Config) (registry : Registry) (package : String) (list : Site)
    (field : Field) (wrapper : Message) : Prop where
  wraps : wrapper.WrapperOf config registry package list
  repeated : field.repeated = true
  type : field.typeName = Package.dotted [package, wrapper.name]

/-- In a registry that stays as it is, the field of a keyed list comes with its key wrapper. -/
theorem Field.MappedFrom.wrappedBy {directory : Directory} {own wrapper : Message}
    {entry : String × Site} {field : Field} {draft : FieldDraft}
    (h : field.MappedFrom config set directory registry own entry)
    (hrun : entry.2.draft config set directory.path own.package entry.1 registry =
      (.ok draft, registry)) (hsome : draft.wrapper = some wrapper)
    (hlist : tree.HasSite entry.2) (hmessage : entry.2.isMessage config.compressPaths = true)
    (hfind : set.find? entry.2.pathText =
      some (Directory.ofSite config.compressPaths entry.2)) :
    field.WrappedBy config registry own.package entry.2 wrapper := by
  obtain ⟨⟨same, hsame, hnamed, _, _⟩, hrepeated⟩ := h
  obtain rfl : same = draft := by
    rw [hrun] at hsame
    cases hsame
    rfl
  have hkeyed : entry.2.node.isKeyedList = true := by
    rw [Site.isKeyedList_eq_of_draft hrun, hsome]
    rfl
  obtain ⟨reference, found, hreference, hwrapper, hfound, htype⟩ :=
    Site.keyWrapper_of_draft hkeyed hrun
  cases hsome.symm.trans hfound
  rw [htype] at hnamed
  have hkind : entry.2.kind = .list := by
    rw [Node.isKeyedList, Bool.and_eq_true, beq_iff_eq] at hkeyed
    exact hkeyed.1
  exact ⟨Site.wrapperOf_keyWrapper hlist hmessage hfind
    (Site.place?_of_messageReference hreference) hwrapper, hrepeated.2 (Or.inl hkind),
    hnamed.eq_of_reference⟩

/-- The names in the own message of a draft are made from those of the directory's fields. -/
theorem Directory.forall₂_own_names {directory : Directory} {draft : MessageDraft}
    {tags : List UInt32} (hrun : directory.draft config set registry = (.ok draft, after))
    (hlength : tags.length = draft.scope.fields.length) :
    List.Forall₂ (fun entry field => MadeFrom (sanitize entry.1) field.name)
      (directory.ownFields config.compressPaths) (draft.own tags).fields := by
  have hnames : List.Forall₂ MadeFrom
      ((directory.ownFields config.compressPaths).map fun entry => sanitize entry.1)
      ((draft.own tags).fields.map Field.name) := by
    have hown : (draft.own tags).fields.map Field.name =
        draft.scope.fields.map UntaggedField.name :=
      (UntaggedField.map_zipWith_withTag hlength).1
    rw [hown, (shape_of_draft hrun).2.1]
    exact NameSet.forall₂_claimAll _ _
  exact List.forall₂_map_left_iff.1 (List.forall₂_map_right_iff.1 hnames)

end YangToProto

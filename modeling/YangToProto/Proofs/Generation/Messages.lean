import YangToProto.Proofs.Collection.InStep
import YangToProto.Proofs.Generation.DraftSteps
import YangToProto.Proofs.Generation.FieldNames

/-!
# Messages in terms of the last registry

The names in the messages of a run are those that the registry has in the end, because drafting a
directory again in that registry gives the same draft (`DirectorySet.forall₂_gives`). So each
message can be described on its own, without the order in which names were given out: for what it
has fields, and to what the type of each field refers (`FieldType.For`).
-/

namespace YangToProto

variable {config : Config} {set : DirectorySet} {table : ScalarTable}
  {asks : Site → LeafType → Prop} {registry after final : Registry}

/-- Whether the type becomes an enum of the shared package. -/
def LeafType.isShared (type : LeafType) : Bool :=
  match type.kind with
  | .scalar _ => false
  | .enumeration _ => !type.isInlineEnum
  | .identityref _ => true
  | .union _ => type.containsEnum

/-!
## Types of fields
-/

/-- What the type of the field for a node refers to, in a message of the given package. -/
inductive FieldType.For (config : Config) (registry : Registry) (package : String) (site : Site) :
    FieldType → Prop where
  | scalar {type : LeafType} (hkind : site.kind.isLeaf = true)
      (htype : site.node.type = some type) (h : type.isShared = false) (entry : String) :
      For config registry package site (.reference entry none)
  | embedded {type : LeafType} (hkind : site.kind.isLeaf = true)
      (htype : site.node.type = some type) (h : type.isShared = false) (candidate : String)
      (values : EnumTable) : For config registry package site (.embedded candidate values)
  | sharedEnum {type : LeafType} {name : String} (hkind : site.kind.isLeaf = true)
      (htype : site.node.type = some type) (h : type.isShared = true)
      (hname : registry.enumNames.find? (type.enumKey site.pathText) = some name) :
      For config registry package site
        (.reference (Package.dotted [config.enumPackage, name]) (some config.enumImport))
  | message {home name : String} (hkind : site.kind.isDirectory = true)
      (hplace : registry.place? config.compressPaths (.directory site) = some (home, name)) :
      For config registry package site
        (.reference (Package.dotted [home, name]) (Site.importFrom package home))
  | wrapper {home name own : String} (hkeyed : site.node.isKeyedList = true)
      (hname : registry.name? (.keys site) = some name)
      (hplace : registry.place? config.compressPaths (.directory site) = some (home, own)) :
      For config registry package site
        (.reference (Package.dotted [package, name]) (Site.importFrom package home))

theorem NodeKind.isDirectory_eq_false {kind : NodeKind} (h : kind.isLeaf = true) :
    kind.isDirectory = false := by
  cases kind with
  | leaf | leafList => rfl
  | module | container | list | anydata => cases h

/-- A leaf of a shared type has a field that refers to the enum that the registry has for it. -/
theorem FieldType.For.eq_of_isShared {package : String} {leaf : Site} {type : FieldType}
    {leafType : LeafType} (h : type.For config registry package leaf)
    (hkind : leaf.kind.isLeaf = true) (htype : leaf.node.type = some leafType)
    (hshared : leafType.isShared = true) :
    ∃ name, registry.enumNames.find? (leafType.enumKey leaf.pathText) = some name ∧
      type = .reference (Package.dotted [config.enumPackage, name]) (some config.enumImport) := by
  have hnot := NodeKind.isDirectory_eq_false hkind
  cases h with
  | scalar _ htype' hnone _ =>
      cases htype.symm.trans htype'
      exact absurd (hshared.symm.trans hnone) (by decide)
  | embedded _ htype' hnone _ _ =>
      cases htype.symm.trans htype'
      exact absurd (hshared.symm.trans hnone) (by decide)
  | sharedEnum _ htype' _ hname =>
      cases htype.symm.trans htype'
      exact ⟨_, hname, rfl⟩
  | message hdirectory _ => exact absurd (hdirectory.symm.trans hnot) (by decide)
  | wrapper hkeyed _ _ =>
      exact absurd ((Node.isDirectory_of_isKeyedList hkeyed).symm.trans hnot) (by decide)

theorem LeafType.importPath_of_mapUnion {leaf : Site} {type : LeafType} {members : List LeafType}
    {mapped : MappedType} (hrun : mapUnion table leaf type members = .ok mapped) :
    mapped.importPath = none := by
  rw [mapUnion] at hrun
  cases hscalars : addAllScalars table leaf [] members with
  | error fault =>
      rw [hscalars] at hrun
      cases hrun
  | ok entries =>
      rw [hscalars] at hrun
      cases entries with
      | nil => cases hrun
      | cons entry others =>
          cases others with
          | nil =>
              cases hrun
              rfl
          | cons second more =>
              cases hrun
              rfl

/-- A shared type is mapped to the enum that the registry has for it, and other types bring no
import. -/
theorem LeafType.of_resolve {leaf : Site} {type : LeafType} {mapped : MappedType}
    (hrun : type.resolve config table leaf registry = (.ok mapped, after)) :
    (type.isShared = true ∧ ∃ name,
      after.enumNames.find? (type.enumKey leaf.pathText) = some name ∧
      mapped = ⟨Package.dotted [config.enumPackage, name], .enum, some config.enumImport⟩) ∨
    (type.isShared = false ∧ mapped.importPath = none) := by
  have hshared : (mapShared config leaf type : Naming MappedType) registry = (.ok mapped, after) →
      ∃ name, after.enumNames.find? (type.enumKey leaf.pathText) = some name ∧
        mapped = ⟨Package.dotted [config.enumPackage, name], .enum, some config.enumImport⟩ := by
    intro hmap
    rw [mapShared_apply] at hmap
    cases hname : Registry.sharedEnumName leaf.pathText type registry with
    | mk name ended =>
        rw [hname] at hmap
        cases hmap
        exact ⟨name, (Registry.keptBy_sharedEnumName hname).2, rfl⟩
  rw [resolve] at hrun
  rw [isShared]
  cases hkind : type.kind with
  | enumeration members =>
      rw [hkind] at hrun
      dsimp only at hrun ⊢
      by_cases hinline : type.isInlineEnum = true
      · rw [if_pos hinline] at hrun
        obtain ⟨rfl, _⟩ := pure_eq_ok hrun
        exact Or.inr ⟨by rw [hinline]; rfl, rfl⟩
      · rw [if_neg hinline] at hrun
        exact Or.inl ⟨by simpa using hinline, hshared hrun⟩
  | identityref base =>
      rw [hkind] at hrun
      exact Or.inl ⟨rfl, hshared hrun⟩
  | union members =>
      rw [hkind] at hrun
      dsimp only at hrun ⊢
      by_cases henum : type.containsEnum = true
      · rw [if_pos henum] at hrun
        exact Or.inl ⟨henum, hshared hrun⟩
      · rw [if_neg henum] at hrun
        obtain ⟨hunion, _⟩ := lift_except_eq_ok hrun
        exact Or.inr ⟨by simpa using henum, importPath_of_mapUnion hunion⟩
  | scalar s =>
      rw [hkind] at hrun
      dsimp only at hrun
      cases hentry : table.scalar? s with
      | some entry =>
          rw [hentry] at hrun
          obtain ⟨rfl, _⟩ := pure_eq_ok hrun
          exact Or.inr ⟨rfl, rfl⟩
      | none =>
          rw [hentry] at hrun
          exact absurd hrun throw_ne_ok

/-- A key has the type that its leaf has in the plain table, unless that is a string for a union of
differing scalars. -/
theorem LeafType.of_mapKey {leaf : Site} {type : LeafType} {mapped : MappedType}
    (hrun : type.mapKey config leaf registry = (.ok mapped, after)) :
    type.resolve config .plain leaf registry = (.ok mapped, after) ∧ mapped.kind ≠ .union := by
  rw [mapKey] at hrun
  obtain ⟨resolved, last, hresolve, hrun⟩ := bind_eq_ok hrun
  by_cases hunion : (resolved.kind == .union) = true
  · rw [if_pos hunion] at hrun
    obtain ⟨_, _, hthrow, _⟩ := bind_eq_ok hrun
    exact absurd hthrow throw_ne_ok
  · rw [if_neg hunion] at hrun
    obtain ⟨rfl, rfl⟩ := pure_eq_ok hrun
    exact ⟨hresolve, by simpa using hunion⟩

theorem LeafType.isInlineEnum_of_isShared {type : LeafType} (h : type.isShared = true) :
    type.isInlineEnum = false := by
  rw [isShared] at h
  rw [isInlineEnum] at h ⊢
  cases hkind : type.kind with
  | enumeration members => simpa [hkind] using h
  | scalar s => rfl
  | identityref base => rfl
  | union members => rfl

theorem FieldType.for_of_resolve {leaf : Site} {package : String} {type : LeafType}
    {mapped : MappedType} {result : FieldType} (hkind : leaf.kind.isLeaf = true)
    (htype : leaf.node.type = some type)
    (hrun : type.resolve config table leaf registry = (.ok mapped, after))
    (hfield : leaf.fieldType type mapped = .ok result) :
    result.For config after package leaf := by
  rw [Site.fieldType] at hfield
  rcases LeafType.of_resolve hrun with ⟨hshared, name, hname, rfl⟩ | ⟨hnot, hnone⟩
  · rw [if_neg (by simp [LeafType.isInlineEnum_of_isShared hshared])] at hfield
    cases hfield
    exact .sharedEnum hkind htype hshared hname
  · split at hfield
    · cases hvalues : type.enumerationValues leaf.pathText with
      | error fault =>
          rw [hvalues] at hfield
          cases hfield
      | ok values =>
          rw [hvalues] at hfield
          cases hfield
          exact .embedded hkind htype hnot _ _
    · cases hfield
      rw [hnone]
      exact .scalar hkind htype hnot _

namespace Site

/-- The type of a leaf's field comes from its own type. -/
theorem of_leafField {leaf : Site} {type : FieldType}
    (hrun : leaf.leafField config registry = (.ok type, after)) :
    ∃ leafType mapped, leaf.node.type = some leafType ∧
      leafType.resolve config config.valueTable leaf registry = (.ok mapped, after) ∧
      leaf.fieldType leafType mapped = .ok type := by
  rw [leafField] at hrun
  cases htype : leaf.node.type with
  | none =>
      rw [htype] at hrun
      exact absurd hrun throw_ne_ok
  | some leafType =>
      rw [htype] at hrun
      obtain ⟨mapped, middle, hmap, hrun⟩ := bind_eq_ok hrun
      obtain ⟨hfield, rfl⟩ := lift_except_eq_ok hrun
      exact ⟨leafType, mapped, rfl, hmap, hfield⟩

/-- The type of a key's field is what the leaf that the key names is mapped to as a key. -/
theorem mapKey_of_keyField {list : Site} {key : String} {type : FieldType}
    (hrun : list.keyField config set key registry = (.ok type, after)) :
    ∃ leaf leafType mapped, list.keyLeaf? set key = some leaf ∧ leaf.kind = .leaf ∧
      leaf.node.type = some leafType ∧
      leafType.mapKey config leaf registry = (.ok mapped, after) ∧
      leaf.fieldType leafType mapped = .ok type := by
  rw [keyField] at hrun
  cases hleaf : list.keyLeaf? set key with
  | none =>
      rw [hleaf] at hrun
      exact absurd hrun throw_ne_ok
  | some leaf =>
      rw [hleaf] at hrun
      cases hkind : leaf.kind with
      | leaf =>
          cases htype : leaf.node.type with
          | some leafType =>
              simp only [hkind, htype] at hrun
              obtain ⟨mapped, middle, hmap, hrun⟩ := bind_eq_ok hrun
              obtain ⟨hfield, rfl⟩ := lift_except_eq_ok hrun
              exact ⟨leaf, leafType, mapped, rfl, hkind, htype, hmap, hfield⟩
          | none =>
              simp only [hkind, htype] at hrun
              exact absurd hrun throw_ne_ok
      | module | container | list | leafList | anydata =>
          simp only [hkind] at hrun
          exact absurd hrun throw_ne_ok

/-- The type of a key's field comes from the type of the leaf that the key names. -/
theorem of_keyField {list : Site} {key : String} {type : FieldType}
    (hrun : list.keyField config set key registry = (.ok type, after)) :
    ∃ leaf leafType mapped, list.keyLeaf? set key = some leaf ∧ leaf.kind = .leaf ∧
      leaf.node.type = some leafType ∧
      leafType.resolve config .plain leaf registry = (.ok mapped, after) ∧
      leaf.fieldType leafType mapped = .ok type := by
  obtain ⟨leaf, leafType, mapped, hleaf, hkind, htype, hmap, hfield⟩ := mapKey_of_keyField hrun
  exact ⟨leaf, leafType, mapped, hleaf, hkind, htype, (LeafType.of_mapKey hmap).1, hfield⟩

theorem for_leafField {leaf : Site} {package : String} {type : FieldType}
    (hkind : leaf.kind.isLeaf = true) (hrun : leaf.leafField config registry = (.ok type, after)) :
    type.For config after package leaf := by
  obtain ⟨leafType, mapped, htype, hresolve, hfield⟩ := of_leafField hrun
  exact FieldType.for_of_resolve hkind htype hresolve hfield

theorem for_keyField {list : Site} {key package : String} {type : FieldType}
    (hrun : list.keyField config set key registry = (.ok type, after)) :
    ∃ leaf, list.keyLeaf? set key = some leaf ∧ leaf.kind = .leaf ∧
      type.For config after package leaf := by
  obtain ⟨leaf, leafType, mapped, hleaf, hkind, htype, hresolve, hfield⟩ := of_keyField hrun
  exact ⟨leaf, hleaf, hkind,
    FieldType.for_of_resolve (by rw [hkind]; rfl) htype hresolve hfield⟩

theorem place?_of_messageReference {site : Site} {reference : String × String}
    (hrun : site.messageReference config registry = (.ok reference, after)) :
    after.place? config.compressPaths (.directory site) = some (reference.2, reference.1) := by
  obtain ⟨name, first, hname, hrest⟩ := bind_eq_ok hrun
  obtain ⟨home, second, hhome, hpure⟩ := bind_eq_ok hrest
  obtain ⟨rfl, rfl⟩ := pure_eq_ok hpure
  have hfound := (Registry.keptBy_messageName hname).2
  obtain ⟨hkept, hpackage⟩ := Registry.keptBy_packageFor (lift_state_eq_ok hhome)
  exact Registry.place?_eq_some_iff.2 ⟨hpackage, hkept.messages _ _ hfound⟩

end Site

/-!
## Scopes
-/

/-- A field of the type has the type name that it refers to, and the import is there. An enum to be
embedded may have any name. -/
def FieldType.ShownBy (imports : List String) (typeName : String) : FieldType → Prop
  | reference wanted path => typeName = wanted ∧ ∀ found ∈ path, found ∈ imports
  | embedded _ _ => True

theorem FieldType.ShownBy.mono {imports more : List String} {typeName : String} {type : FieldType}
    (h : type.ShownBy imports typeName) (hmore : ∀ path ∈ imports, path ∈ more) :
    type.ShownBy more typeName := by
  cases type with
  | reference wanted path => exact ⟨h.1, fun found hfound => hmore found (h.2 found hfound)⟩
  | embedded candidate values => trivial

namespace Scope

/-- The scope has a field for each draft, in order, and the imports that they bring. -/
structure Shows (drafts : List FieldDraft) (scope : Scope) : Prop where
  fields : List.Forall₂
    (fun draft field => draft.type.ShownBy scope.imports field.typeName) drafts scope.fields
  imports : ∀ path ∈ scope.imports, ∃ draft ∈ drafts, ∃ typeName,
    draft.type = .reference typeName (some path)

variable {drafts : List FieldDraft} {scope : Scope} {draft : FieldDraft}

theorem mem_imports_addImport {path other : String} :
    other ∈ (scope.addImport path).imports ↔ other ∈ scope.imports ∨ other = path := by
  rw [addImport]
  split
  · rename_i hcontains
    rw [List.contains_iff_mem] at hcontains
    constructor
    · exact Or.inl
    · rintro (h | rfl)
      · exact h
      · exact hcontains
  · exact List.mem_append.trans (by rw [List.mem_singleton])

theorem exists_fields_accept (scope : Scope) (draft : FieldDraft) :
    ∃ field, (scope.accept draft).fields = scope.fields ++ [field] ∧
      draft.type.ShownBy (scope.accept draft).imports field.typeName := by
  obtain ⟨schemaName, type, repeated, options, wrapper⟩ := draft
  cases type with
  | reference typeName path =>
      cases path with
      | none => exact ⟨_, rfl, rfl, by simp⟩
      | some path =>
          have hfields := ((scope.addField schemaName typeName repeated options).addImport_eq
            path).1
          refine ⟨_, hfields, rfl, fun found hfound => ?_⟩
          rw [Option.mem_some] at hfound
          exact mem_imports_addImport.2 (Or.inr hfound.symm)
  | embedded candidate values => exact ⟨_, rfl, trivial⟩

theorem mem_imports_accept_iff {path : String} :
    path ∈ (scope.accept draft).imports ↔
      path ∈ scope.imports ∨ ∃ typeName, draft.type = .reference typeName (some path) := by
  obtain ⟨schemaName, type, repeated, options, wrapper⟩ := draft
  cases type with
  | reference typeName found =>
      cases found with
      | none => simp [accept, addField]
      | some found =>
          rw [accept, mem_imports_addImport]
          simp [addField, eq_comm]
  | embedded candidate values => simp [accept, addField]

theorem Shows.accept (h : scope.Shows drafts) (draft : FieldDraft) :
    (scope.accept draft).Shows (drafts ++ [draft]) where
  fields := by
    obtain ⟨field, hfields, hshown⟩ := scope.exists_fields_accept draft
    rw [hfields]
    refine List.rel_append (h.fields.imp fun other old hold => ?_) (.cons hshown .nil)
    exact hold.mono fun path hpath => mem_imports_accept_iff.2 (Or.inl hpath)
  imports := by
    intro path hpath
    rcases mem_imports_accept_iff.1 hpath with hpath | ⟨typeName, htype⟩
    · obtain ⟨other, ho, hother⟩ := h.imports path hpath
      exact ⟨other, List.mem_append_left _ ho, hother⟩
    · exact ⟨draft, by simp, typeName, htype⟩

theorem Shows.foldl_accept (h : scope.Shows drafts) (more : List FieldDraft) :
    (more.foldl Scope.accept scope).Shows (drafts ++ more) := by
  induction more generalizing scope drafts with
  | nil => simpa using h
  | cons draft rest ih =>
      have hrest := ih (h.accept draft)
      rw [List.append_assoc, List.singleton_append] at hrest
      exact hrest

theorem shows_ofDrafts (drafts : List FieldDraft) : (ofDrafts drafts).Shows drafts := by
  have hempty : empty.Shows [] := ⟨.nil, fun _ hpath => absurd hpath List.not_mem_nil⟩
  exact hempty.foldl_accept drafts

end Scope

/-!
## Messages of owners
-/

def Owner.messageKind : Owner → MessageKind
  | directory _ => .directory
  | keys _ => .listKey

/-- The keys of a key wrapper are leaves. -/
def Owner.KeysAreLeaves (set : DirectorySet) : Owner → Prop
  | directory _ => True
  | keys list => ∀ leaf ∈ list.node.key.filterMap (list.keyLeaf? set), leaf.kind = .leaf

/-- The message is what the registry has for an owner: it has the owner's name, a field for
everything that the owner has fields for, and just the imports of those fields. -/
structure Message.MadeFor (config : Config) (set : DirectorySet) (registry : Registry)
    (owner : Owner) (message : Message) : Prop where
  kind : message.kind = owner.messageKind
  schemaPath : message.schemaPath = owner.site.pathText
  name : registry.name? owner = some message.name
  fields : List.Forall₂ (fun site field => ∃ type : FieldType,
      type.For config registry message.package site ∧ type.ShownBy message.imports field.typeName)
    (owner.fields config set) message.fields
  imports : ∀ path ∈ message.imports, ∃ site ∈ owner.fields config set, ∃ typeName,
    (FieldType.reference typeName (some path)).For config registry message.package site
  keys : owner.KeysAreLeaves set

theorem UntaggedField.forall₂_withTag {fields : List UntaggedField} {tags : List UInt32}
    (h : tags.length = fields.length) :
    List.Forall₂ (fun field tagged => ∃ tag, tagged = field.withTag tag) fields
      (List.zipWith UntaggedField.withTag fields tags) := by
  induction fields generalizing tags with
  | nil => exact .nil
  | cons field rest ih =>
      cases tags with
      | nil => cases h
      | cons tag others => exact .cons ⟨tag, rfl⟩ (ih (Nat.succ.inj h))

/-- What the scope of drafted fields is as a message. -/
theorem Message.madeFor_of_drafts (owner : Owner) {drafts : List FieldDraft}
    {name package : String} {tags : List UInt32} (hkeys : owner.KeysAreLeaves set)
    (hname : registry.name? owner = some name)
    (hlength : tags.length = (Scope.ofDrafts drafts).fields.length)
    (h : List.Forall₂ (fun site draft => draft.type.For config registry package site)
      (owner.fields config set) drafts) :
    ((Scope.ofDrafts drafts).message name package owner.site.pathText tags
      owner.messageKind).MadeFor config set registry owner where
  kind := rfl
  schemaPath := rfl
  name := hname
  fields := by
    have hshown := forall₂_comp h (Scope.shows_ofDrafts drafts).fields
    refine (forall₂_comp hshown (UntaggedField.forall₂_withTag hlength)).imp ?_
    rintro site tagged ⟨field, ⟨draft, hfor, hshow⟩, tag, rfl⟩
    exact ⟨draft.type, hfor, hshow⟩
  imports := by
    intro path hpath
    obtain ⟨draft, hdraft, typeName, htype⟩ := (Scope.shows_ofDrafts drafts).imports path hpath
    obtain ⟨site, hsite, hfor⟩ := exists_mem_left_of_forall₂ h hdraft
    exact ⟨site, hsite, typeName, htype ▸ hfor⟩
  keys := hkeys

/-!
## Drafts in a registry that stays as it is
-/

namespace Site

/-- In such a registry keys are drafted one by one. -/
theorem forall₂_keyField {list : Site} {keys : List String} {drafts : List FieldDraft}
    (hrun : list.keyFields config set keys registry = (drafts.map .ok, registry)) :
    List.Forall₂ (fun key draft => ∃ type : FieldType, draft = ⟨key, type, false, [], none⟩ ∧
      list.keyField config set key registry = (.ok type, registry)) keys drafts := by
  induction keys generalizing drafts with
  | nil =>
      cases drafts with
      | nil => exact .nil
      | cons draft more => cases hrun
  | cons key rest ih =>
      obtain ⟨type, more, middle, rfl, hfirst, hothers⟩ := of_keyFields_cons hrun
      have hkey : Steady anyLeaf (list.keyField config set key) :=
        (leafStep_keyField fun leaf _ => leaf.asksAs_anyLeaf).steady
      have hgrows : middle.Grows anyLeaf (list.keyFields config set rest middle).2 :=
        grows_keyFields (fun _ _ leaf _ => leaf.asksAs_anyLeaf) middle
      rw [hothers] at hgrows
      obtain rfl := hkey.eq_of_keptBy hfirst hgrows.keptBy
      exact .cons ⟨type, rfl, hfirst⟩ (ih hothers)

theorem forall₂_keyFields {list : Site} (package : String) {keys : List String}
    {drafts : List FieldDraft}
    (hrun : list.keyFields config set keys registry = (drafts.map .ok, registry)) :
    List.Forall₂ (fun key draft => ∃ leaf, list.keyLeaf? set key = some leaf ∧
      leaf.kind = .leaf ∧ draft.type.For config registry package leaf) keys drafts := by
  refine (forall₂_keyField hrun).imp ?_
  rintro key _ ⟨type, rfl, hkey⟩
  exact for_keyField hkey

theorem length_tagsFromOne (count : Nat) : (tagsFromOne count).length = count := by
  rw [tagsFromOne, List.length_map, List.length_range']

/-- In such a registry a key wrapper is made of drafts of its keys, and of the list's message. -/
theorem keyWrapper_cases {list : Site} {package listMessage listPackage : String}
    {wrapper : Message}
    (hrun : list.keyWrapper config set package listMessage listPackage registry =
      (.ok wrapper, registry)) :
    ∃ name keys scope, registry.keyMessages.find? list.pathText = some name ∧
      list.keyFields config set list.node.key registry = (keys.map .ok, registry) ∧
      scope = Scope.ofDrafts (keys ++ [⟨list.name,
        .reference (Package.dotted [listPackage, listMessage]) (importFrom package listPackage),
        false, [], none⟩]) ∧
      wrapper = scope.message name package list.pathText (tagsFromOne scope.fields.length)
        .listKey := by
  obtain ⟨name, middle, keys, scope, hname, hkeys, hscope, hwrapper⟩ := of_keyWrapper hrun
  have hgrows : middle.Grows anyLeaf (list.keyFields config set list.node.key middle).2 :=
    grows_keyFields (fun _ _ leaf _ => leaf.asksAs_anyLeaf) middle
  rw [hkeys] at hgrows
  have hsteady : Steady anyLeaf (Registry.keyMessageName list listMessage package) :=
    Registry.steady_keyMessageName _ _ _
  obtain rfl := hsteady.eq_of_keptBy hname hgrows.keptBy
  exact ⟨name, keys, scope, (Registry.keptBy_keyMessageName hname).2, hkeys, hscope, hwrapper⟩

/-- A key wrapper is what the registry has for the keys of its list. -/
theorem madeFor_keyWrapper {list : Site} {package listMessage listPackage : String}
    {wrapper : Message} (hkind : list.kind.isDirectory = true)
    (hplace : registry.place? config.compressPaths (.directory list) =
      some (listPackage, listMessage))
    (hrun : list.keyWrapper config set package listMessage listPackage registry =
      (.ok wrapper, registry)) :
    wrapper.MadeFor config set registry (.keys list) ∧ wrapper.package = package := by
  obtain ⟨name, keys, scope, hname, hkeys, rfl, rfl⟩ := keyWrapper_cases hrun
  have hfields := forall₂_filterMap (forall₂_keyFields package hkeys)
  have hleaves : (Owner.keys list).KeysAreLeaves set := by
    intro leaf hleaf
    obtain ⟨draft, _, hkind, _⟩ := exists_mem_right_of_forall₂ hfields hleaf
    exact hkind
  refine ⟨Message.madeFor_of_drafts (.keys list) hleaves hname (length_tagsFromOne _) ?_, rfl⟩
  exact List.rel_append (hfields.imp fun _ _ h => h.2) (.cons (.message hkind hplace) .nil)

/-- In such a registry the draft of a keyed list brings a key wrapper that is drafted there. -/
theorem keyWrapper_of_draft {field : Site} {path package fieldName : String} {draft : FieldDraft}
    (hkeyed : field.node.isKeyedList = true)
    (hrun : field.draft config set path package fieldName registry = (.ok draft, registry)) :
    ∃ reference wrapper, field.messageReference config registry = (.ok reference, registry) ∧
      field.keyWrapper config set package reference.1 reference.2 registry =
        (.ok wrapper, registry) ∧
      draft.wrapper = some wrapper ∧
      draft.type = .reference (Package.dotted [package, wrapper.name])
        (importFrom package reference.2) := by
  rcases draft_cases hrun with ⟨_, hnot, _⟩ | ⟨_, hnot, _⟩ |
    ⟨_, reference, middle, wrapper, hreference, hwrapper, hsome, htype⟩
  · rw [hkeyed] at hnot
    cases hnot
  · rw [hkeyed] at hnot
    cases hnot
  · have hsteady : Steady anyLeaf
        (field.keyWrapper config set package reference.1 reference.2) :=
      steady_keyWrapper fun leaf _ => leaf.asksAs_anyLeaf
    have hgrows := hsteady.grows middle
    rw [hwrapper] at hgrows
    have hfirst : Steady anyLeaf (field.messageReference config) := steady_messageReference field
    obtain rfl := hfirst.eq_of_keptBy hreference hgrows.keptBy
    exact ⟨reference, wrapper, hreference, hwrapper, hsome, htype⟩

/-- What the draft of a field refers to, and the key wrapper that it brings. -/
theorem for_draft {field : Site} {path package fieldName : String} {draft : FieldDraft}
    (hrun : field.draft config set path package fieldName registry = (.ok draft, registry)) :
    draft.type.For config registry package field ∧
      List.Forall₂ (fun owner wrapper => Message.MadeFor config set registry owner wrapper ∧
        wrapper.package = package) field.keyOwners draft.wrapper.toList := by
  rcases draft_cases hrun with ⟨hkind, hkeyed, hnone, hleaf⟩ |
    ⟨hkind, hkeyed, hnone, reference, hreference, htype⟩ |
    ⟨hkeyed, _⟩
  · rw [keyOwners, if_neg (by simp [hkeyed]), hnone]
    exact ⟨for_leafField hkind hleaf, .nil⟩
  · rw [keyOwners, if_neg (by simp [hkeyed]), hnone, htype]
    exact ⟨.message hkind (place?_of_messageReference hreference), .nil⟩
  · obtain ⟨reference, wrapper, hreference, hwrapper, hsome, htype⟩ :=
      keyWrapper_of_draft hkeyed hrun
    have hplace := place?_of_messageReference hreference
    obtain ⟨hfor, hpackage⟩ :=
      madeFor_keyWrapper (Node.isDirectory_of_isKeyedList hkeyed) hplace hwrapper
    rw [keyOwners, if_pos hkeyed, hsome, htype]
    exact ⟨.wrapper hkeyed hfor.name hplace, .cons ⟨hfor, hpackage⟩ .nil⟩

theorem forall₂_drafts {path package : String} {fields : List (String × Site)}
    {values : List FieldDraft}
    (hrun : drafts config set path package fields registry = (values.map .ok, registry)) :
    List.Forall₂ (fun field draft =>
      field.2.draft config set path package field.1 registry = (.ok draft, registry))
      fields values := by
  induction fields generalizing values with
  | nil =>
      cases values with
      | nil => exact .nil
      | cons draft more => cases hrun
  | cons field rest ih =>
      obtain ⟨draft, more, middle, others, rfl, hfirst, hothers, hgather⟩ :=
        of_drafts_cons hrun (GenerationErrors.gather_eq_ok_iff.2 rfl)
      rw [GenerationErrors.gather_eq_ok_iff.1 hgather] at hothers
      have hdraft : Steady anyLeaf (field.2.draft config set path package field.1) :=
        steady_draft field.2.asksAs_anyLeaf fun _ leaf _ => leaf.asksAs_anyLeaf
      have hgrows : middle.Grows anyLeaf (drafts config set path package rest middle).2 :=
        grows_drafts (allAskAs_anyLeaf rest) middle
      rw [hothers] at hgrows
      obtain rfl := hdraft.eq_of_keptBy hfirst hgrows.keptBy
      exact .cons hfirst (ih hothers)

end Site

/-- In such a registry a draft is made of the drafts of its fields, with the name and package that
the registry has. -/
theorem Directory.exists_drafts {site : Site} {draft : MessageDraft}
    (hrun : (ofSite config.compressPaths site).draft config set registry =
      (.ok draft, registry)) :
    ∃ fields, registry.messages.find? site.pathText = some draft.name ∧
      registry.packages.find? (site.anchor config.compressPaths) = some draft.package ∧
      Site.drafts config set site.pathText draft.package
        ((ofSite config.compressPaths site).ownFields config.compressPaths) registry =
          (fields.map .ok, registry) ∧
      draft = ⟨draft.name, draft.package, site.pathText, Scope.ofDrafts fields,
        fields.filterMap FieldDraft.wrapper⟩ := by
  obtain ⟨first, second, fields, hname, hpackage, hfields, hdraft⟩ := of_draft hrun
  have hgrows : second.Grows Site.anyLeaf (Site.drafts config set site.pathText draft.package
      ((ofSite config.compressPaths site).ownFields config.compressPaths) second).2 :=
    Site.grows_drafts (Site.allAskAs_anyLeaf _) second
  rw [← path_ofSite config.compressPaths, hfields] at hgrows
  obtain ⟨hkept, hfound⟩ := Registry.keptBy_packageFor hpackage
  have hown := hgrows.keptBy.packages _ _ hfound
  have hsteady : Steady Site.anyLeaf (Registry.messageName config.compressPaths site) :=
    Registry.steady_messageName _ _
  obtain rfl := hsteady.eq_of_keptBy hname (hkept.trans hgrows.keptBy)
  rw [Registry.packageFor_of_find? hown] at hpackage
  obtain rfl := (Prod.mk.inj hpackage).2
  exact ⟨fields, (Registry.keptBy_messageName hname).2, hown, hfields, hdraft⟩

/-- The messages of a directory are what the registry has for its owners. -/
theorem Directory.forall₂_madeFor {site : Site} {draft : MessageDraft} {tags : List UInt32}
    (hrun : (ofSite config.compressPaths site).draft config set registry = (.ok draft, registry))
    (hlength : tags.length = draft.scope.fields.length) :
    registry.packages.find? (site.anchor config.compressPaths) = some draft.package ∧
      List.Forall₂ (fun owner message => Message.MadeFor config set registry owner message ∧
          message.package = draft.package)
        ((ofSite config.compressPaths site).owners config.compressPaths)
        (draft.wrappers ++ [draft.own tags]) := by
  obtain ⟨fields, hname, hown, hfields, hdraft⟩ := exists_drafts hrun
  have hdrafts := (Site.forall₂_drafts hfields).imp fun _ _ hdraft => Site.for_draft hdraft
  have hmade : (draft.own tags).MadeFor config set registry (.directory site) := by
    rw [hdraft] at hlength ⊢
    refine Message.madeFor_of_drafts (.directory site) trivial hname hlength ?_
    exact List.forall₂_map_left_iff.2 (hdrafts.imp fun _ _ h => h.1)
  refine ⟨hown, List.rel_append ?_ (.cons ⟨hmade, rfl⟩ .nil)⟩
  rw [hdraft]
  exact forall₂_flatMap_filterMap (hdrafts.imp fun _ _ h => h.2)

end YangToProto

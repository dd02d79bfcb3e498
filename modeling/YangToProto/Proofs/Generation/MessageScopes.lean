import YangToProto.Proofs.Generation.Records
import YangToProto.Proofs.Proto.LegalNames

/-!
# What messages hold

The names in a message follow from the schema alone. Its fields go by the names of the sites that it
has fields for, sanitized and claimed in turn (`Owner.fieldNames`); the leaves among these whose
enumerations are written in place bring enums, whose names are claimed in turn among themselves
(`Owner.enums`). Every message of a run holds just these (`GeneratedRecords.NamedBy.scopeOf`).
-/

namespace YangToProto

open Identifier

variable {config : Config} {tree : Tree} {set : DirectorySet} {table : ScalarTable}
  {registry after : Registry} {owner : Owner}

/-- The enum that the field of a leaf brings to its message, with the name wanted for it. -/
def Site.embeddedEnum? (leaf : Site) : Option (String × EnumTable) :=
  match leaf.node.type with
  | none => none
  | some type =>
    if leaf.kind.isLeaf && type.isInlineEnum then
      (type.enumerationValues leaf.pathText).toOption.map fun values =>
        (pascalCase leaf.name, values)
    else none

namespace Owner

def fieldNames (config : Config) (set : DirectorySet) (owner : Owner) : List String :=
  NameSet.claimAll ∅ ((owner.fields config set).map fun site => sanitize site.name)

/-- The enums that fields bring to a message, with the names wanted for them. -/
def wantedEnums (config : Config) (set : DirectorySet) (owner : Owner) :
    List (String × EnumTable) :=
  (owner.fields config set).filterMap Site.embeddedEnum?

def enums (config : Config) (set : DirectorySet) (owner : Owner) : List (String × EnumTable) :=
  (NameSet.claimAll ∅ ((owner.wantedEnums config set).map Prod.fst)).zip
    ((owner.wantedEnums config set).map Prod.snd)

end Owner

/-!
## Names in the schema
-/

theorem exists_mem_of_mem_zip {α β γ : Type} {R : α → β → Prop} {f : α → γ} {left : List α}
    {right : List β} (h : List.Forall₂ R left right) {b : β} {c : γ}
    (hmem : (b, c) ∈ right.zip (left.map f)) : ∃ a ∈ left, R a b ∧ f a = c := by
  induction h with
  | nil => exact absurd hmem List.not_mem_nil
  | @cons a _ rest _ hfirst _ ih =>
      rw [List.map_cons, List.zip_cons_cons] at hmem
      rcases List.mem_cons.1 hmem with hsame | hmem
      · cases hsame
        exact ⟨a, List.mem_cons_self, hfirst, rfl⟩
      · obtain ⟨other, ho, hrest⟩ := ih hmem
        exact ⟨other, List.mem_cons_of_mem _ ho, hrest⟩

theorem Site.of_embeddedEnum? {leaf : Site} {candidate : String} {values : EnumTable}
    (h : leaf.embeddedEnum? = some (candidate, values)) :
    candidate = pascalCase leaf.name ∧ ∃ type, leaf.node.type = some type ∧
      type.enumerationValues leaf.pathText = .ok values := by
  rw [embeddedEnum?] at h
  cases htype : leaf.node.type with
  | none =>
      rw [htype] at h
      cases h
  | some type =>
      rw [htype] at h
      dsimp only at h
      split at h
      · cases hvalues : type.enumerationValues leaf.pathText with
        | error fault =>
            rw [hvalues] at h
            cases h
        | ok found =>
            rw [hvalues] at h
            cases h
            exact ⟨rfl, type, rfl, hvalues⟩
      · cases h

namespace Owner

/-- The names of fields are made from the names of sites. -/
theorem forall₂_fieldNames (config : Config) (set : DirectorySet) (owner : Owner) :
    List.Forall₂ (fun site name => MadeFrom (sanitize site.name) name) (owner.fields config set)
      (owner.fieldNames config set) :=
  List.forall₂_map_left_iff.1 (NameSet.forall₂_claimAll _ _)

/-- Each enum is named after the leaf that brings it. -/
theorem exists_leaf_of_mem_enums {name : String} {values : EnumTable}
    (h : (name, values) ∈ owner.enums config set) :
    ∃ leaf ∈ owner.fields config set, leaf.embeddedEnum? = some (pascalCase leaf.name, values) ∧
      MadeFrom (pascalCase leaf.name) name := by
  have hmade : List.Forall₂ (fun wanted name => MadeFrom wanted.1 name)
      (owner.wantedEnums config set)
      (NameSet.claimAll ∅ ((owner.wantedEnums config set).map Prod.fst)) :=
    List.forall₂_map_left_iff.1 (NameSet.forall₂_claimAll _ _)
  obtain ⟨⟨candidate, found⟩, hwanted, hname, rfl⟩ := exists_mem_of_mem_zip hmade h
  obtain ⟨leaf, hleaf, hbrings⟩ := List.mem_filterMap.1 hwanted
  obtain ⟨rfl, _⟩ := Site.of_embeddedEnum? hbrings
  exact ⟨leaf, hleaf, hbrings, hname⟩

/-- What a leaf's enum would be named is the name of some enum. -/
theorem exists_enum_of_leaf {leaf : Site} {values : EnumTable}
    (hleaf : leaf ∈ owner.fields config set)
    (hbrings : leaf.embeddedEnum? = some (pascalCase leaf.name, values)) :
    ∃ found, (pascalCase leaf.name, found) ∈ owner.enums config set := by
  have hwanted : (pascalCase leaf.name, values) ∈ owner.wantedEnums config set :=
    List.mem_filterMap.2 ⟨leaf, hleaf, hbrings⟩
  have hclaimed : (∅ : NameSet).contains (pascalCase leaf.name) = true ∨ pascalCase leaf.name ∈
      NameSet.claimAll ∅ ((owner.wantedEnums config set).map Prod.fst) :=
    NameSet.mem_claimAll_of_mem (List.mem_map_of_mem (f := Prod.fst) hwanted)
  have hname := hclaimed.resolve_left (nomatch ·)
  have hlength : (NameSet.claimAll ∅ ((owner.wantedEnums config set).map Prod.fst)).length ≤
      ((owner.wantedEnums config set).map Prod.snd).length := by
    rw [NameSet.length_claimAll, List.length_map, List.length_map]
  rw [← List.map_fst_zip hlength] at hname
  obtain ⟨⟨_, found⟩, hmem, rfl⟩ := List.mem_map.1 hname
  exact ⟨found, hmem⟩

end Owner

/-- The message holds the fields and enums of an owner. -/
structure Message.ScopeOf (config : Config) (set : DirectorySet) (owner : Owner)
    (message : Message) : Prop where
  fields : message.fields.map Field.name = owner.fieldNames config set
  enums : ∀ {name values}, message.enums.find? name = some values ↔
    (name, values) ∈ owner.enums config set

/-!
## Scopes
-/

def FieldType.embedded? : FieldType → Option (String × EnumTable)
  | reference _ _ => none
  | embedded candidate values => some (candidate, values)

namespace Scope

variable {draft : FieldDraft}

theorem enums_accept_of_none (scope : Scope) (h : draft.type.embedded? = none) :
    (scope.accept draft).enums = scope.enums ∧
      (scope.accept draft).enumNames = scope.enumNames := by
  obtain ⟨schemaName, type, repeated, options, wrapper⟩ := draft
  cases type with
  | reference typeName path =>
      cases path with
      | none => exact ⟨rfl, rfl⟩
      | some path =>
          rw [accept]
          dsimp only
          rw [addImport]
          split
          · exact ⟨rfl, rfl⟩
          · exact ⟨rfl, rfl⟩
  | embedded candidate values => cases h

theorem enums_accept_of_some (scope : Scope) {candidate : String} {values : EnumTable}
    (h : draft.type.embedded? = some (candidate, values)) :
    (scope.accept draft).enums =
        scope.enums.insert (scope.enumNames.firstFree candidate) values ∧
      (scope.accept draft).enumNames =
        scope.enumNames.add (scope.enumNames.firstFree candidate) := by
  obtain ⟨schemaName, type, repeated, options, wrapper⟩ := draft
  cases type with
  | reference typeName path => cases h
  | embedded wanted table =>
      cases h
      simp only [accept, NameSet.claim_eq]
      exact ⟨rfl, rfl⟩

/-- The enums that drafts bring claim names in turn. -/
theorem find?_enums_foldl_accept {drafts : List FieldDraft} {wanted : List (String × EnumTable)}
    (hwanted : drafts.filterMap (FieldType.embedded? ∘ FieldDraft.type) = wanted) {scope : Scope}
    (h : ∀ name, scope.enums.contains name = true → scope.enumNames.contains name = true)
    {name : String} {values : EnumTable} :
    (drafts.foldl accept scope).enums.find? name = some values ↔
      scope.enums.find? name = some values ∨
        (name, values) ∈ (scope.enumNames.claimAll (wanted.map Prod.fst)).zip
          (wanted.map Prod.snd) := by
  induction drafts generalizing wanted scope with
  | nil =>
      subst hwanted
      simp
  | cons draft rest ih =>
      rw [List.foldl_cons]
      cases hbrings : draft.type.embedded? with
      | none =>
          obtain ⟨henums, hnames⟩ := enums_accept_of_none scope hbrings
          have hbrings : (FieldType.embedded? ∘ FieldDraft.type) draft = none := hbrings
          rw [List.filterMap_cons_none hbrings] at hwanted
          rw [ih hwanted (by rwa [henums, hnames]), henums, hnames]
      | some pair =>
          obtain ⟨candidate, table⟩ := pair
          obtain ⟨henums, hnames⟩ := enums_accept_of_some scope hbrings
          have hbrings : (FieldType.embedded? ∘ FieldDraft.type) draft = some (candidate, table) :=
            hbrings
          rw [List.filterMap_cons_some hbrings] at hwanted
          subst hwanted
          have hfree := NameSet.contains_firstFree scope.enumNames candidate
          have hlater : ∀ name, (scope.accept draft).enums.contains name = true →
              (scope.accept draft).enumNames.contains name = true := by
            intro name hname
            rw [henums, SortedMap.contains_insert, Bool.or_eq_true] at hname
            rw [hnames, NameSet.contains_add, Bool.or_eq_true]
            exact hname.imp_right (h name)
          rw [ih rfl hlater, henums, hnames, SortedMap.find?_insert, List.map_cons,
            List.map_cons, NameSet.claimAll_cons, List.zip_cons_cons, List.mem_cons, Prod.mk.injEq]
          by_cases heq : name = scope.enumNames.firstFree candidate
          · -- the name was free, so it did not belong to an enum before
            have hnone : scope.enums.find? name = none := by
              cases hfind : scope.enums.find? name with
              | none => rfl
              | some found =>
                  have hused := h name ((SortedMap.contains_iff _ _).2 ⟨_, hfind⟩)
                  rw [heq, hfree] at hused
                  cases hused
            rw [if_pos heq, hnone]
            simp [heq, eq_comm]
          · rw [if_neg heq]
            simp [heq]

end Scope

theorem Message.scopeOf_of_drafts {drafts : List FieldDraft} {name package path : String}
    {tags : List UInt32} {kind : MessageKind}
    (hlength : tags.length = (Scope.ofDrafts drafts).fields.length)
    (h : List.Forall₂ (fun site draft => draft.schemaName = site.name ∧
      draft.type.embedded? = site.embeddedEnum?) (owner.fields config set) drafts) :
    ((Scope.ofDrafts drafts).message name package path tags kind).ScopeOf config set owner where
  fields := by
    refine ((UntaggedField.map_zipWith_withTag hlength).1.trans (Scope.names_ofDrafts drafts)).trans
      (congrArg (NameSet.claimAll ∅) ?_)
    exact map_eq_of_forall₂ (fun site draft hdraft => congrArg sanitize hdraft.1) h
  enums := by
    have hwanted : drafts.filterMap (FieldType.embedded? ∘ FieldDraft.type) =
        owner.wantedEnums config set :=
      filterMap_eq_of_forall₂ (fun site draft hdraft => hdraft.2) h
    have hempty : ∀ name, Scope.empty.enums.contains name = true →
        Scope.empty.enumNames.contains name = true := (nomatch ·, ·)
    intro found values
    refine (Scope.find?_enums_foldl_accept hwanted hempty).trans ?_
    exact or_iff_right (nomatch ·)

/-!
## Drafts
-/

/-- An enumeration in place is named after its leaf. -/
theorem LeafType.typeName_of_isInlineEnum {leaf : Site} {type : LeafType} {mapped : MappedType}
    (hinline : type.isInlineEnum = true)
    (hrun : type.resolve config table leaf registry = (.ok mapped, after)) :
    mapped.typeName = pascalCase leaf.name := by
  rw [resolve] at hrun
  cases hshape : type.kind with
  | enumeration members =>
      simp only [hshape, hinline, if_true] at hrun
      obtain ⟨rfl, _⟩ := pure_eq_ok hrun
      rfl
  | scalar _ | identityref _ | union _ => simp [isInlineEnum, hshape] at hinline

theorem FieldType.embedded?_of_resolve {leaf : Site} {type : LeafType} {mapped : MappedType}
    {result : FieldType} (hkind : leaf.kind.isLeaf = true) (htype : leaf.node.type = some type)
    (hrun : type.resolve config table leaf registry = (.ok mapped, after))
    (hfield : leaf.fieldType type mapped = .ok result) :
    result.embedded? = leaf.embeddedEnum? := by
  rw [Site.fieldType] at hfield
  simp only [Site.embeddedEnum?, htype, hkind, Bool.true_and]
  by_cases hinline : type.isInlineEnum = true
  · rw [if_pos hinline] at hfield ⊢
    have hname := LeafType.typeName_of_isInlineEnum hinline hrun
    cases hvalues : type.enumerationValues leaf.pathText with
    | error fault =>
        rw [hvalues] at hfield
        cases hfield
    | ok values =>
        rw [hvalues] at hfield
        cases hfield
        rw [hname]
        rfl
  · rw [if_neg hinline] at hfield ⊢
    cases hfield
    rfl

namespace Site

theorem embeddedEnum?_of_isDirectory {site : Site} (h : site.kind.isDirectory = true) :
    site.embeddedEnum? = none := by
  have hkind : site.kind.isLeaf = false := by
    rw [← Bool.not_eq_true]
    intro hleaf
    rw [NodeKind.isDirectory_eq_false hleaf] at h
    cases h
  rw [embeddedEnum?]
  split
  · rfl
  · rw [hkind]
    rfl

/-- The leaf of a key goes by the key, and belongs to the tree that the list belongs to. -/
theorem of_keyLeaf? {list leaf : Site} {key : String}
    (h : list.keyLeaf? (tree.directories config) key = some leaf) :
    leaf.name = key ∧ (tree.HasSite list → tree.HasSite leaf) := by
  rw [keyLeaf?] at h
  split at h
  · rename_i found hfound
    cases h
    obtain ⟨directory, hdirectory, hfield⟩ := Option.bind_eq_some_iff.1 hfound
    obtain ⟨site, hsite, hmessage, rfl⟩ :=
      DirectorySet.mem_collect_iff.1 (DirectorySet.mem_of_find? hdirectory)
    obtain ⟨hname, hunder, _⟩ :=
      of_mem_fields hmessage ((SortedMap.mem_entries_iff _ _ _).2 hfield)
    exact ⟨hname, fun _ => hsite.trans hunder⟩
  · obtain ⟨child, hchild, rfl⟩ := Option.map_eq_some_iff.1 h
    have hname : child.name = key := by simpa using List.find?_some hchild
    exact ⟨hname, fun hlist => hlist.step (List.mem_of_find?_eq_some hchild)⟩

/-- A key wrapper holds the fields and enums of its keys. -/
theorem scopeOf_keyWrapper {list : Site} {package listMessage listPackage : String}
    {wrapper : Message} (hkind : list.kind.isDirectory = true)
    (hrun : list.keyWrapper config (tree.directories config) package listMessage listPackage
      registry = (.ok wrapper, registry)) :
    wrapper.ScopeOf config (tree.directories config) (.keys list) := by
  obtain ⟨name, keys, scope, _, hkeys, rfl, rfl⟩ := keyWrapper_cases hrun
  refine Message.scopeOf_of_drafts (length_tagsFromOne _) (List.rel_append ?_ (.cons ?_ .nil))
  · refine forall₂_filterMap ((forall₂_keyField hkeys).imp ?_)
    rintro key _ ⟨type, rfl, hfield⟩
    obtain ⟨leaf, leafType, mapped, hleaf, hleafKind, htype, hresolve, hresult⟩ :=
      of_keyField hfield
    exact ⟨leaf, hleaf, (of_keyLeaf? hleaf).1.symm,
      FieldType.embedded?_of_resolve (by rw [hleafKind]; rfl) htype hresolve hresult⟩
  · exact ⟨rfl, (embeddedEnum?_of_isDirectory hkind).symm⟩

/-- The draft of a field goes by the field's name and brings the enum of the field. A key wrapper
that it brings holds the fields and enums of its keys. -/
theorem scopeOf_draft {field : Site} {path package fieldName : String} {draft : FieldDraft}
    (hrun : field.draft config (tree.directories config) path package fieldName registry =
      (.ok draft, registry)) :
    draft.type.embedded? = field.embeddedEnum? ∧
      List.Forall₂ (fun owner wrapper =>
          Message.ScopeOf config (tree.directories config) owner wrapper)
        field.keyOwners draft.wrapper.toList := by
  rcases draft_cases hrun with ⟨hkind, hkeyed, hnone, hleaf⟩ |
    ⟨hkind, hkeyed, hnone, reference, _, htype⟩ | ⟨hkeyed, _⟩
  · rw [keyOwners, if_neg (by simp [hkeyed]), hnone]
    obtain ⟨leafType, mapped, hleafType, hresolve, hresult⟩ := of_leafField hleaf
    exact ⟨FieldType.embedded?_of_resolve hkind hleafType hresolve hresult, .nil⟩
  · rw [keyOwners, if_neg (by simp [hkeyed]), hnone, htype, embeddedEnum?_of_isDirectory hkind]
    exact ⟨rfl, .nil⟩
  · obtain ⟨reference, wrapper, _, hwrapper, hsome, htype⟩ := keyWrapper_of_draft hkeyed hrun
    have hkind : field.kind.isDirectory = true := Node.isDirectory_of_isKeyedList hkeyed
    rw [keyOwners, if_pos hkeyed, hsome, htype, embeddedEnum?_of_isDirectory hkind]
    exact ⟨rfl, .cons (scopeOf_keyWrapper hkind hwrapper) .nil⟩

end Site

/-- The messages of a directory hold the fields and enums of its owners. -/
theorem Directory.forall₂_scopeOf {site : Site} {draft : MessageDraft} {tags : List UInt32}
    (hmessage : site.isMessage config.compressPaths = true)
    (hrun : (ofSite config.compressPaths site).draft config (tree.directories config) registry =
      (.ok draft, registry))
    (hlength : tags.length = draft.scope.fields.length) :
    List.Forall₂ (fun owner message =>
        Message.ScopeOf config (tree.directories config) owner message)
      ((ofSite config.compressPaths site).owners config.compressPaths)
      (draft.wrappers ++ [draft.own tags]) := by
  obtain ⟨fields, _, _, hfields, hdraft⟩ := exists_drafts hrun
  have hdrafts := Site.forall₂_drafts hfields
  have hown : (draft.own tags).ScopeOf config (tree.directories config) (.directory site) := by
    rw [hdraft] at hlength ⊢
    refine Message.scopeOf_of_drafts hlength (List.forall₂_map_left_iff.2 ?_)
    refine List.forall₂_iff_zip.2 ⟨hdrafts.length_eq, fun {field drafted} hmem => ?_⟩
    have hname := (Site.of_mem_fields hmessage
      (List.mem_filter.1 (List.of_mem_zip hmem).1).1).1
    have hfield := List.forall₂_zip hdrafts hmem
    exact ⟨(Site.shape_of_draft hfield).1.trans hname.symm, (Site.scopeOf_draft hfield).1⟩
  refine List.rel_append ?_ (.cons hown .nil)
  rw [hdraft]
  exact forall₂_flatMap_filterMap (hdrafts.imp fun _ _ hfield => (Site.scopeOf_draft hfield).2)

/-!
## Runs
-/

namespace GeneratedRecords

variable {records : GeneratedRecords} {package : String} {message : Message}

/-- Every message of a run holds the fields and enums of its owner. -/
theorem NamedBy.scopeOf (h : records.NamedBy config tree registry)
    (hmakes : records.Makes config tree owner package message) :
    message.ScopeOf config (tree.directories config) owner :=
  List.forall₂_zip (DirectorySet.forall₂_of_draft (R := fun owner message =>
    Message.ScopeOf config (tree.directories config) owner message)
    (fun _ _ _ => Directory.forall₂_scopeOf) h.gives) hmakes

end GeneratedRecords

end YangToProto

import YangToProto.Proofs.Generation.Records
import YangToProto.Proofs.Generation.WireShape
import YangToProto.Proofs.Naming.SideBySide

/-!
# Two runs side by side

Two runs go through the same directories, with configurations that compress paths alike but may
differ in all else, and with registries that may hand out different names. What must hold of the
two registries is a parameter, and so is how the names of messages are related; all that is asked is
that the naming operations keep to it (`Registry.Accord`). Then both draft messages that are alike,
or both report the same errors. If the shared enums are the same as well, both runs succeed or both
report the same errors, and they leave the same ledger (`DirectorySet.lockstep_of_accord`).

The proof goes along the steps of drafting. Of the tables of scalars it needs no more than that they
have entries for the same scalars: a union may come out as another type, but it is at fault under
both or under neither (`LeafType.alike_mapUnion`).
-/

namespace YangToProto

section Outcomes

variable {α β : Type} {R : α → α → Prop}

theorem GenerationErrors.alike_gather {outcomes others : List (Except GenerationErrors α)}
    (h : List.Forall₂ (Alike R) outcomes others) :
    Alike (List.Forall₂ R) (gather outcomes) (gather others) := by
  induction h with
  | nil => exact .ok .nil
  | @cons _ _ rest more hfirst _ ih =>
      generalize hone : gather rest = one at ih
      generalize htwo : gather more = two at ih
      cases hfirst with
      | ok hvalue =>
          rw [gather, gather, hone, htwo]
          cases ih with
          | ok hrest => exact .ok (.cons hvalue hrest)
          | error errors => exact .error errors
      | error errors =>
          rw [gather, gather, hone, htwo]
          cases ih with
          | ok _ => exact .error errors
          | error more => exact .error (errors ++ more)

theorem DirectorySet.alike_both {one other : Except GenerationErrors α} (h : Alike R one other)
    (outcome : Except GenerationErrors β) :
    Alike (fun pair others => R pair.1 others.1 ∧ others.2 = pair.2)
      (both one outcome) (both other outcome) := by
  cases h with
  | ok hvalue =>
      cases outcome with
      | ok _ => exact .ok ⟨hvalue, rfl⟩
      | error errors => exact .error errors
  | error errors =>
      cases outcome with
      | ok _ => exact .error errors
      | error more => exact .error (errors ++ more)

end Outcomes

namespace Lockstep

variable {α β : Type} {I : Registry → Registry → Prop} {R : α → α → Prop} {S : β → β → Prop}

theorem tryAll {steps steps' : List (Drafting α)} (h : List.Forall₂ (Lockstep I R) steps steps')
    {registry other : Registry} (hrelated : I registry other) :
    List.Forall₂ (Alike R) (tryAll steps registry).1 (YangToProto.tryAll steps' other).1 ∧
      I (YangToProto.tryAll steps registry).2 (YangToProto.tryAll steps' other).2 := by
  induction h generalizing registry other with
  | nil => exact ⟨.nil, hrelated⟩
  | cons hstep _ ih =>
      obtain ⟨houtcome, hmiddle⟩ := hstep.run hrelated
      obtain ⟨hothers, hafter⟩ := ih hmiddle
      exact ⟨.cons houtcome hothers, hafter⟩

/-- Steps that are tried one after the other, and then must all have succeeded. -/
theorem collect {steps steps' : List (Drafting α)} {next next' : List α → Drafting β}
    (h : List.Forall₂ (Lockstep I R) steps steps')
    (h' : ∀ values others, List.Forall₂ R values others →
      Lockstep I S (next values) (next' others)) :
    Lockstep I S (do
      let outcomes ← YangToProto.tryAll steps
      let values ← (GenerationErrors.gather outcomes : Except _ _)
      next values : Drafting β) (do
      let outcomes ← YangToProto.tryAll steps'
      let values ← (GenerationErrors.gather outcomes : Except _ _)
      next' values : Drafting β) where
  run := fun hrelated => by
    obtain ⟨houtcomes, hafter⟩ := tryAll h hrelated
    exact (bind (lift_except (GenerationErrors.alike_gather houtcomes)) h').run hafter

end Lockstep

/-- The naming operations keep registries related and give related names, where they are asked for
certain messages and key wrappers. Of packages and of the names of shared enums nothing is said. -/
structure Registry.Accord (compress : Bool) (asks : Owner → Prop)
    (I : Registry → Registry → Prop) (N : String → String → Prop) : Prop where
  package : ∀ {site}, asks (.directory site) → ∀ {registry other}, I registry other →
    I (packageFor compress site registry).2 (packageFor compress site other).2
  message : ∀ {site}, asks (.directory site) →
    Lockstep I N (messageName compress site) (messageName compress site)
  keyMessage : ∀ {list}, asks (.keys list) → ∀ {listMessage listMessage'},
    N listMessage listMessage' → ∀ package package',
      Lockstep I N (keyMessageName list listMessage package)
        (keyMessageName list listMessage' package')
  shared : ∀ (leaf : Site) type {registry other}, I registry other →
    I (sharedEnumName leaf.pathText type registry).2 (sharedEnumName leaf.pathText type other).2

theorem Registry.Accord.lift_package {compress : Bool} {asks : Owner → Prop}
    {I : Registry → Registry → Prop} {N : String → String → Prop}
    (haccord : Accord compress asks I N) {site : Site} (h : asks (.directory site)) {ε : Type} :
    Lockstep I Unrelated (liftM (packageFor compress site) : ExceptT ε (StateM Registry) String)
      (liftM (packageFor compress site)) where
  run := fun hrelated => ⟨.ok trivial, haccord.package h hrelated⟩

variable {I : Registry → Registry → Prop} {N : String → String → Prop} {config config' : Config}
  {asks : Owner → Prop} {set : DirectorySet} {directory : Directory} {leaf field list : Site}

/-!
## Types of fields
-/

/-- The types are alike as far as the type of a leaf decides: they have one name if they are to be
embedded, and one kind if they come from one table. -/
structure MappedType.Like (type : LeafType) (table table' : ScalarTable)
    (mapped other : MappedType) : Prop where
  typeName : type.isInlineEnum = true → other.typeName = mapped.typeName
  kind : table' = table → other.kind = mapped.kind

namespace LeafType

variable {table table' : ScalarTable} {type : LeafType}

/-- Whether a scalar has an entry is the same in all tables. -/
theorem isSome_scalar? (table table' : ScalarTable) (s : Scalar) :
    (table.scalar? s).isSome = (table'.scalar? s).isSome := by
  cases s <;> rfl

theorem isSome_kind? (table table' : ScalarTable) (kind : TypeKind) :
    (table.kind? kind).isSome = (table'.kind? kind).isSome := by
  cases kind with
  | scalar s => exact isSome_scalar? table table' s
  | enumeration _ | identityref _ | union _ => rfl

theorem addEntry_ne_nil (found : List String) (entry : String) : addEntry found entry ≠ [] := by
  rw [addEntry]
  split
  · rename_i hmem
    exact List.ne_nil_of_mem (List.contains_iff_mem.1 hmem)
  · simp

/-- Going along the parts of a union stops at the same part in every table. -/
theorem alike_addPart (table table' : ScalarTable) (parts : List (String × TypeKind))
    {found found' : List String} (h : found = [] ↔ found' = []) :
    Alike (fun one two => one = [] ↔ two = []) (parts.foldlM (addPart table leaf) found)
      (parts.foldlM (addPart table' leaf) found') := by
  induction parts generalizing found found' with
  | nil => exact .ok h
  | cons part rest ih =>
      have hsome := isSome_kind? table table' part.2
      rw [List.foldlM_cons, List.foldlM_cons, addPart, addPart]
      cases hone : table.kind? part.2 with
      | none =>
          cases htwo : table'.kind? part.2 with
          | none => exact .error _
          | some _ => simp [hone, htwo] at hsome
      | some entry =>
          cases htwo : table'.kind? part.2 with
          | none => simp [hone, htwo] at hsome
          | some entry' =>
              refine ih ?_
              simp [addEntry_ne_nil]

theorem alike_mapUnion (members : List LeafType) (hinline : type.isInlineEnum = false) :
    Alike (MappedType.Like type table table') (mapUnion table leaf type members)
      (mapUnion table' leaf type members) := by
  by_cases htable : table' = table
  · subst htable
    exact (Alike.refl _).imp fun _ _ heq => heq ▸ ⟨fun _ => rfl, fun _ => rfl⟩
  · -- nothing is asked of the values, only that both unions have an entry or neither has
    have hlike : ∀ mapped other, MappedType.Like type table table' mapped other := fun _ _ =>
      ⟨fun h => absurd h (by simp [hinline]), fun h => absurd h htable⟩
    have hparts : Alike (fun one two => one = [] ↔ two = [])
        ((allParts members).foldlM (addPart table leaf) [])
        ((allParts members).foldlM (addPart table' leaf) []) :=
      alike_addPart table table' (allParts members) Iff.rfl
    rw [mapUnion, mapUnion, addAllScalars_eq, addAllScalars_eq]
    generalize (allParts members).foldlM (addPart table leaf) [] = one at hparts ⊢
    generalize (allParts members).foldlM (addPart table' leaf) [] = two at hparts ⊢
    cases hparts with
    | error fault => exact .error fault
    | @ok entries entries' hempty =>
        cases entries with
        | nil =>
            cases hempty.1 rfl
            exact .error _
        | cons entry more =>
            cases entries' with
            | nil => exact absurd (hempty.2 rfl) (List.cons_ne_nil _ _)
            | cons entry' more' =>
                cases more <;> cases more' <;> exact .ok (hlike _ _)

theorem lockstep_mapShared {compress : Bool} (haccord : Registry.Accord compress asks I N)
    (hinline : type.isInlineEnum = false) :
    Lockstep I (MappedType.Like type table table')
      (mapShared config leaf type : Naming MappedType) (mapShared config' leaf type) where
  run := fun hrelated => by
    rw [mapShared_apply, mapShared_apply]
    exact ⟨.ok ⟨fun h => absurd h (by simp [hinline]), fun _ => rfl⟩,
      haccord.shared leaf type hrelated⟩

theorem lockstep_resolve {compress : Bool} (haccord : Registry.Accord compress asks I N)
    (table table' : ScalarTable) (leaf : Site) (type : LeafType) :
    Lockstep I (MappedType.Like type table table') (type.resolve config table leaf)
      (type.resolve config' table' leaf) := by
  rw [resolve, resolve]
  cases hkind : type.kind with
  | enumeration members =>
      cases hinline : type.isInlineEnum with
      | true => exact .pure ⟨fun _ => rfl, fun _ => rfl⟩
      | false => exact lockstep_mapShared haccord hinline
  | identityref base => exact lockstep_mapShared haccord (by rw [isInlineEnum, hkind])
  | union members =>
      have hinline : type.isInlineEnum = false := by rw [isInlineEnum, hkind]
      dsimp only
      split
      · exact lockstep_mapShared haccord hinline
      · exact .lift_except (alike_mapUnion members hinline)
  | scalar s =>
      have hinline : type.isInlineEnum = false := by rw [isInlineEnum, hkind]
      have hsome := isSome_scalar? table table' s
      dsimp only
      cases hone : table.scalar? s with
      | none =>
          cases htwo : table'.scalar? s with
          | none => exact .throw _
          | some _ => simp [hone, htwo] at hsome
      | some entry =>
          cases htwo : table'.scalar? s with
          | none => simp [hone, htwo] at hsome
          | some entry' => exact .pure ⟨fun h => absurd h (by simp [hinline]), fun _ => rfl⟩

theorem lockstep_mapKey {compress : Bool} (haccord : Registry.Accord compress asks I N)
    (leaf : Site) (type : LeafType) :
    Lockstep I (MappedType.Like type .plain .plain) (type.mapKey config leaf)
      (type.mapKey config' leaf) := by
  refine .bind (lockstep_resolve haccord .plain .plain leaf type) fun mapped other hlike => ?_
  rw [hlike.kind rfl]
  split
  · exact .bind (R := Eq) (.throw _) fun _ _ _ => .pure hlike
  · exact .pure hlike

end LeafType

namespace Site

theorem alike_fieldType {type : LeafType} {table table' : ScalarTable}
    {mapped other : MappedType} (h : mapped.Like type table table' other) :
    Alike FieldType.Like (leaf.fieldType type mapped) (leaf.fieldType type other) := by
  rw [fieldType, fieldType]
  split
  · rename_i hinline
    rw [h.typeName hinline]
    cases type.enumerationValues leaf.pathText with
    | ok values => exact .ok (.embedded _ _)
    | error fault => exact .error fault
  · exact .ok (.reference _ _ _ _)

variable {compress : Bool} (haccord : Registry.Accord compress asks I N)
include haccord

theorem lockstep_leafField (leaf : Site) :
    Lockstep I FieldType.Like (leaf.leafField config) (leaf.leafField config') := by
  rw [leafField, leafField]
  cases leaf.node.type with
  | none => exact .throw _
  | some type =>
      exact .bind (LeafType.lockstep_resolve haccord _ _ leaf type) fun _ _ hlike =>
        .lift_except (alike_fieldType hlike)

theorem lockstep_keyField (list : Site) (key : String) :
    Lockstep I FieldType.Like (list.keyField config set key) (list.keyField config' set key) := by
  rw [keyField, keyField]
  cases list.keyLeaf? set key with
  | none => exact .throw _
  | some leaf =>
      dsimp only
      cases leaf.kind with
      | leaf =>
          cases leaf.node.type with
          | none => exact .throw _
          | some type =>
              exact .bind (LeafType.lockstep_mapKey haccord leaf type) fun _ _ hlike =>
                .lift_except (alike_fieldType hlike)
      | module | container | list | leafList | anydata => exact .throw _

end Site

/-!
## Drafts
-/

/-- The drafts have names that are related and the same path, and otherwise agree in what counts for
the wire. -/
structure MessageDraft.Like (N : String → String → Prop) (draft other : MessageDraft) : Prop where
  name : N draft.name other.name
  schemaPath : other.schemaPath = draft.schemaPath
  scope : draft.scope.Like other.scope
  wrappers : List.Forall₂ (Message.Like N) draft.wrappers other.wrappers

section Drafts

variable (hcompress : config'.compressPaths = config.compressPaths)
  (haccord : Registry.Accord config.compressPaths asks I N)

namespace Site

include haccord

theorem lockstep_keyWrapper (h : asks (.keys field)) {listMessage listMessage' : String}
    (hname : N listMessage listMessage') (package package' listPackage listPackage' : String) :
    Lockstep I (Message.Like N) (field.keyWrapper config set package listMessage listPackage)
      (field.keyWrapper config' set package' listMessage' listPackage') := by
  rw [keyWrapper, keyWrapper, keyFields_eq, keyFields_eq]
  refine .bind (haccord.keyMessage h hname _ _).drafting fun name name' hname => ?_
  refine .collect (R := FieldDraft.Like N) ?_ fun keys keys' hkeys => ?_
  · refine List.forall₂_map_left_iff.2 (List.forall₂_map_right_iff.2 ?_)
    refine List.forall₂_same.2 fun key _ => ?_
    refine .bind (lockstep_keyField haccord field key).drafting fun type type' htype => ?_
    exact .pure (FieldDraft.like_without_wrapper htype)
  · have hentry : FieldDraft.Like N
        ⟨field.name, .reference (Package.dotted [listPackage, listMessage])
          (importFrom package listPackage), false, [], none⟩
        ⟨field.name, .reference (Package.dotted [listPackage', listMessage'])
          (importFrom package' listPackage'), false, [], none⟩ :=
      FieldDraft.like_without_wrapper (.reference _ _ _ _)
    have hscope := Scope.like_ofDrafts (List.rel_append hkeys (.cons hentry .nil))
    refine .pure ?_
    rw [← hscope.length]
    exact hscope.message hname _ _ _ _ _

include hcompress

theorem lockstep_messageReference {site : Site} (h : asks (.directory site)) :
    Lockstep I (fun reference other => N reference.1 other.1) (site.messageReference config)
      (site.messageReference config') := by
  rw [messageReference, messageReference, hcompress]
  exact .bind (haccord.message h) fun _ _ hname =>
    .bind (haccord.lift_package h) fun _ _ _ => .pure hname

/-- Drafts of a field in messages that may stand in different packages. -/
theorem lockstep_draft (h : field.MayAsk asks) (path package package' name : String) :
    Lockstep I (FieldDraft.Like N) (field.draft config set path package name)
      (field.draft config' set path package' name) := by
  rw [draft, draft]
  cases hkind : field.kind with
  | list =>
      have hmessage := h.message (by rw [hkind]; rfl)
      refine .bind (lockstep_messageReference hcompress haccord hmessage).drafting
        fun reference reference' hname => ?_
      dsimp only
      split
      · rename_i hkeyed
        refine .bind (lockstep_keyWrapper haccord (h.keys hkeyed) hname _ _ _ _)
          fun wrapper wrapper' hwrapper => ?_
        exact .pure ⟨rfl, .reference _ _ _ _, rfl, .some hwrapper⟩
      · exact .pure (FieldDraft.like_without_wrapper (.reference _ _ _ _))
  | container =>
      have hmessage := h.message (by rw [hkind]; rfl)
      refine .bind (lockstep_messageReference hcompress haccord hmessage).drafting
        fun reference reference' _ => ?_
      exact .pure (FieldDraft.like_without_wrapper (.reference _ _ _ _))
  | leaf | leafList =>
      refine .bind (lockstep_leafField haccord field).drafting fun type type' htype => ?_
      exact .pure (FieldDraft.like_without_wrapper htype)
  | module | anydata => exact .throw _

end Site

include hcompress haccord

theorem Directory.lockstep_draft (h : asks (.directory directory.site))
    (hfields : ∀ field ∈ directory.fields.entries, field.2.MayAsk asks) :
    Lockstep I (MessageDraft.Like N) (directory.draft config set)
      (directory.draft config' set) := by
  rw [draft, draft, hcompress]
  refine .bind (haccord.message h).drafting fun name name' hname => ?_
  refine .bind (haccord.lift_package h) fun package package' _ => ?_
  rw [Site.drafts_eq, Site.drafts_eq]
  refine .collect (R := FieldDraft.Like N) ?_ fun fields fields' hlike => ?_
  · refine List.forall₂_map_left_iff.2 (List.forall₂_map_right_iff.2 ?_)
    refine List.forall₂_same.2 fun field hfield => ?_
    exact Site.lockstep_draft hcompress haccord (hfields field (List.mem_filter.1 hfield).1) _ _ _ _
  · exact .pure ⟨hname, rfl, Scope.like_ofDrafts hlike, FieldDraft.forall₂_wrappers hlike⟩

end Drafts

/-!
## Runs
-/

structure GenerationState.Related (I : Registry → Registry → Prop)
    (state other : GenerationState) : Prop where
  registry : I state.registry other.registry
  ledger : state.ledger = other.ledger

def MessageGroup.Like (N : String → String → Prop) (group other : MessageGroup) : Prop :=
  List.Forall₂ (Message.Like N) group.messages other.messages

theorem MessageDraft.Like.messages {draft draft' : MessageDraft} (h : draft.Like N draft')
    (ledger : Ledger) :
    Alike (List.Forall₂ (Message.Like N)) (draft.messages ledger).1 (draft'.messages ledger).1 ∧
      (draft.messages ledger).2 = (draft'.messages ledger).2 := by
  rw [MessageDraft.messages, MessageDraft.messages, h.schemaPath, h.scope.names]
  cases ledger.assign draft.schemaPath (draft.scope.fields.map UntaggedField.name) with
  | mk outcome later =>
      cases outcome with
      | error fault => exact ⟨.error _, rfl⟩
      | ok tags =>
          refine ⟨.ok (List.rel_append h.wrappers (.cons ?_ .nil)), rfl⟩
          exact h.scope.message h.name _ _ _ _ _

section Runs

variable {tree : Tree} {state other : GenerationState}
  (hcompress : config'.compressPaths = config.compressPaths)
  (haccord : Registry.Accord config.compressPaths (tree.directories config).Needs I N)
include hcompress haccord

theorem Directory.lockstep_messages (hd : directory ∈ (tree.directories config).directories)
    (h : state.Related I other) :
    Alike (List.Forall₂ (Message.Like N))
        (directory.messages config (tree.directories config) state).1
        (directory.messages config' (tree.directories config) other).1 ∧
      (directory.messages config (tree.directories config) state).2.Related I
        (directory.messages config' (tree.directories config) other).2 := by
  have hdraft : Lockstep I (MessageDraft.Like N)
      (directory.draft config (tree.directories config))
      (directory.draft config' (tree.directories config)) :=
    Directory.lockstep_draft hcompress haccord ⟨directory, hd, rfl⟩ (Directory.mayAsk_of_mem hd)
  obtain ⟨houtcome, hafter⟩ := hdraft.run h.registry
  rw [messages, messages, ← h.ledger]
  cases hrun : (directory.draft config (tree.directories config)).run state.registry with
  | mk outcome after =>
      cases hrun' : (directory.draft config' (tree.directories config)).run other.registry with
      | mk outcome' after' =>
          rw [ExceptT.run] at hrun hrun'
          rw [hrun, hrun'] at houtcome hafter
          cases houtcome with
          | error errors => exact ⟨.error errors, hafter, rfl⟩
          | ok hlike =>
              obtain ⟨halike, hledger⟩ := hlike.messages state.ledger
              exact ⟨halike, hafter, hledger⟩

theorem Site.lockstep_messageGroup (hd : directory ∈ (tree.directories config).directories)
    (h : state.Related I other) :
    Alike (MessageGroup.Like N)
        (directory.site.messageGroup config (tree.directories config) state).1
        (directory.site.messageGroup config' (tree.directories config) other).1 ∧
      (directory.site.messageGroup config (tree.directories config) state).2.Related I
        (directory.site.messageGroup config' (tree.directories config) other).2 := by
  rw [messageGroup, messageGroup]
  split
  · exact ⟨.error _, h⟩
  · cases hfind : (tree.directories config).find? directory.site.pathText with
    | none => exact ⟨.error _, h⟩
    | some found =>
        obtain ⟨houtcome, hafter⟩ := Directory.lockstep_messages hcompress haccord
          (DirectorySet.mem_of_find? hfind) h
        dsimp only
        cases hrun : found.messages config (tree.directories config) state with
        | mk outcome reached =>
            cases hrun' : found.messages config' (tree.directories config) other with
            | mk outcome' reached' =>
                rw [hrun, hrun'] at houtcome hafter
                cases houtcome with
                | error errors => exact ⟨.error errors, hafter⟩
                | ok hlike =>
                    rw [hcompress]
                    exact ⟨.ok hlike, haccord.package ⟨directory, hd, rfl⟩ hafter.registry,
                      hafter.ledger⟩

namespace DirectorySet

theorem lockstep_messageGroups {directories : List Directory}
    (hall : ∀ directory ∈ directories, directory ∈ (tree.directories config).directories)
    (h : state.Related I other) :
    List.Forall₂ (Alike (MessageGroup.Like N))
        ((tree.directories config).messageGroups config directories state).1
        ((tree.directories config).messageGroups config' directories other).1 ∧
      ((tree.directories config).messageGroups config directories state).2.Related I
        ((tree.directories config).messageGroups config' directories other).2 := by
  induction directories generalizing state other with
  | nil => exact ⟨.nil, h⟩
  | cons directory rest ih =>
      obtain ⟨hfirst, hmiddle⟩ :=
        Site.lockstep_messageGroup hcompress haccord (hall directory List.mem_cons_self) h
      obtain ⟨hothers, hafter⟩ :=
        ih (fun other ho => hall other (List.mem_cons_of_mem _ ho)) hmiddle
      exact ⟨.cons hfirst hothers, hafter⟩

/-- If related registries have the same shared enums, both runs succeed, with messages that are
alike and the same shared enums, or both have the same errors. Their ledgers are the same. -/
theorem lockstep_of_accord (henums : ∀ {registry other : Registry}, I registry other →
      other.sharedEnums = registry.sharedEnums) (h : state.Related I other) :
    Alike (fun records others =>
          List.Forall₂ (MessageGroup.Like N) records.groups others.groups ∧
            others.enums = records.enums)
        ((tree.directories config).records config state).1
        ((tree.directories config).records config' other).1 ∧
      ((tree.directories config).records config state).2.Related I
        ((tree.directories config).records config' other).2 := by
  obtain ⟨houtcomes, hafter⟩ := lockstep_messageGroups hcompress haccord (fun _ hd => hd) h
  have hboth := alike_both (GenerationErrors.alike_gather houtcomes)
    (Registry.buildSharedEnums ((tree.directories config).messageGroups config
      (tree.directories config).directories state).2.registry)
  rw [records, records]
  dsimp only
  have hsame := henums hafter.registry
  rw [Registry.buildSharedEnums] at hboth
  rw [Registry.buildSharedEnums, Registry.buildSharedEnums, hsame]
  exact ⟨hboth.map fun _ _ hlike => hlike, hafter⟩

end DirectorySet

end Runs

end YangToProto

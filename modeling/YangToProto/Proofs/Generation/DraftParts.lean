import YangToProto.Proofs.Generation.Drafts
import YangToProto.Proofs.Generation.Faults
import YangToProto.Proofs.Naming.Memory

/-!
# What drafts are made of

A draft that succeeds is taken apart into the steps that it is made of (`Site.draft_cases`,
`Site.of_keyWrapper`, `Directory.of_draft`).

What a leaf needs is a `LeafStep`: it asks for shared enums, and for no others than it may, or it
finds a fault in the schema.
-/

namespace YangToProto

theorem GenerationErrors.gather_eq_ok_iff {α : Type} {outcomes : List (Except GenerationErrors α)}
    {values : List α} : gather outcomes = .ok values ↔ outcomes = values.map .ok := by
  induction outcomes generalizing values with
  | nil =>
      cases values with
      | nil => simp [gather]
      | cons value others => simp [gather]
  | cons outcome rest ih =>
      constructor
      · intro h
        obtain ⟨value, others, rfl, hrest, rfl⟩ := gather_cons_eq_ok h
        rw [ih.1 hrest, List.map_cons]
      · intro h
        obtain ⟨value, others, rfl, rfl, hrest⟩ := List.map_eq_cons_iff.1 h.symm
        rw [gather, ih.2 hrest.symm]
        rfl

/-- What a message has fields for, in order. A key wrapper has one for each key and one for the
entry itself. -/
def Owner.fields (config : Config) (set : DirectorySet) : Owner → List Site
  | directory site =>
    ((Directory.ofSite config.compressPaths site).ownFields config.compressPaths).map Prod.snd
  | keys list => list.node.key.filterMap (list.keyLeaf? set) ++ [list]

variable {config : Config} {set : DirectorySet} {table : ScalarTable}
  {asks : Site → LeafType → Prop} {registry after later : Registry} {leaf list : Site}

/-!
## What a draft is made of
-/

namespace Site

theorem of_keyWrapper {list : Site} {package listMessage listPackage : String} {wrapper : Message}
    (hrun : list.keyWrapper config set package listMessage listPackage registry =
      (.ok wrapper, after)) :
    ∃ name middle keys scope,
      Registry.keyMessageName list listMessage package registry = (.ok name, middle) ∧
      list.keyFields config set list.node.key middle = (keys.map .ok, after) ∧
      scope = Scope.ofDrafts (keys ++ [⟨list.name,
        .reference (Package.dotted [listPackage, listMessage]) (importFrom package listPackage),
        false, [], none⟩]) ∧
      wrapper = scope.message name package list.pathText (tagsFromOne scope.fields.length)
        .listKey := by
  obtain ⟨name, middle, hname, hrest⟩ := bind_eq_ok hrun
  obtain ⟨outcomes, last, houtcomes, hrest⟩ := bind_eq_ok hrest
  obtain ⟨keys, _, hkeys, hpure⟩ := bind_eq_ok hrest
  obtain ⟨hgather, rfl⟩ := lift_except_eq_ok hkeys
  obtain ⟨rfl, rfl⟩ := pure_eq_ok hpure
  have hfields := lift_state_eq_ok houtcomes
  rw [GenerationErrors.gather_eq_ok_iff.1 hgather] at hfields
  exact ⟨name, middle, keys, _, drafting_eq_ok hname, hfields, rfl, rfl⟩

/-- Where all keys can be mapped, the first one can, and then the others. -/
theorem of_keyFields_cons {key : String} {rest : List String} {drafts : List FieldDraft}
    (hrun : list.keyFields config set (key :: rest) registry = (drafts.map .ok, after)) :
    ∃ type more middle, drafts = ⟨key, type, false, [], none⟩ :: more ∧
      list.keyField config set key registry = (.ok type, middle) ∧
      list.keyFields config set rest middle = (more.map .ok, after) := by
  rw [keyFields_cons] at hrun
  cases hfirst : (list.keyField config set key).drafting registry with
  | mk outcome middle =>
      simp only [hfirst] at hrun
      obtain ⟨hdrafts, hafter⟩ := Prod.mk.inj hrun
      obtain ⟨draft, more, rfl, hdraft, hmore⟩ := List.map_eq_cons_iff.1 hdrafts.symm
      cases outcome with
      | error errors => cases hdraft
      | ok type =>
          cases hdraft
          exact ⟨type, more, middle, rfl, drafting_eq_ok hfirst, Prod.ext hmore.symm hafter⟩

/-- The draft of a field is that of a leaf, that of a container or list whose message it refers to,
or that of a list with a key wrapper. -/
theorem draft_cases {field : Site} {path package fieldName : String} {draft : FieldDraft}
    (hrun : field.draft config set path package fieldName registry = (.ok draft, after)) :
    (field.kind.isLeaf = true ∧ field.node.isKeyedList = false ∧ draft.wrapper = none ∧
      field.leafField config registry = (.ok draft.type, after)) ∨
    (field.kind.isDirectory = true ∧ field.node.isKeyedList = false ∧ draft.wrapper = none ∧
      ∃ reference, field.messageReference config registry = (.ok reference, after) ∧
        draft.type = .reference (Package.dotted [reference.2, reference.1])
          (importFrom package reference.2)) ∨
    (field.node.isKeyedList = true ∧ ∃ reference middle wrapper,
      field.messageReference config registry = (.ok reference, middle) ∧
      field.keyWrapper config set package reference.1 reference.2 middle = (.ok wrapper, after) ∧
      draft.wrapper = some wrapper ∧
      draft.type = .reference (Package.dotted [package, wrapper.name])
        (importFrom package reference.2)) := by
  have hlist : field.kind ≠ .list → field.node.isKeyedList = false := fun hkind => by
    rw [Node.isKeyedList, Bool.and_eq_false_iff]
    exact Or.inl (beq_eq_false_iff_ne.2 hkind)
  cases hkind : field.kind with
  | list =>
      simp only [Site.draft, hkind] at hrun
      obtain ⟨reference, middle, hreference, hrest⟩ := bind_eq_ok hrun
      by_cases hkeyed : field.node.isKeyedList = true
      · simp only [hkeyed, if_true] at hrest
        obtain ⟨wrapper, last, hwrapper, hpure⟩ := bind_eq_ok hrest
        obtain ⟨rfl, rfl⟩ := pure_eq_ok hpure
        exact Or.inr (Or.inr ⟨hkeyed, reference, middle, wrapper, drafting_eq_ok hreference,
          hwrapper, rfl, rfl⟩)
      · simp only [hkeyed] at hrest
        obtain ⟨rfl, rfl⟩ := pure_eq_ok hrest
        exact Or.inr (Or.inl ⟨rfl, by simpa using hkeyed, rfl, reference,
          drafting_eq_ok hreference, rfl⟩)
  | container =>
      simp only [Site.draft, hkind] at hrun
      obtain ⟨reference, middle, hreference, hpure⟩ := bind_eq_ok hrun
      obtain ⟨rfl, rfl⟩ := pure_eq_ok hpure
      exact Or.inr (Or.inl ⟨rfl, hlist (by simp [hkind]), rfl, reference,
        drafting_eq_ok hreference, rfl⟩)
  | leaf | leafList =>
      simp only [Site.draft, hkind] at hrun
      obtain ⟨type, last, htype, hpure⟩ := bind_eq_ok hrun
      obtain ⟨rfl, rfl⟩ := pure_eq_ok hpure
      exact Or.inl ⟨rfl, hlist (by simp [hkind]), rfl, drafting_eq_ok htype⟩
  | module | anydata =>
      simp only [Site.draft, hkind] at hrun
      exact absurd hrun throw_ne_ok

end Site

theorem Directory.of_draft {directory : Directory} {draft : MessageDraft}
    (hrun : directory.draft config set registry = (.ok draft, after)) :
    ∃ first second fields,
      Registry.messageName config.compressPaths directory.site registry =
        (.ok draft.name, first) ∧
      Registry.packageFor config.compressPaths directory.site first = (draft.package, second) ∧
      Site.drafts config set directory.path draft.package
        (directory.ownFields config.compressPaths) second = (fields.map .ok, after) ∧
      draft = ⟨draft.name, draft.package, directory.path, Scope.ofDrafts fields,
        fields.filterMap FieldDraft.wrapper⟩ := by
  obtain ⟨name, first, hname, hrest⟩ := bind_eq_ok hrun
  obtain ⟨package, second, hpackage, hrest⟩ := bind_eq_ok hrest
  obtain ⟨outcomes, last, houtcomes, hrest⟩ := bind_eq_ok hrest
  obtain ⟨fields, _, hfields, hpure⟩ := bind_eq_ok hrest
  obtain ⟨hgather, rfl⟩ := lift_except_eq_ok hfields
  obtain ⟨rfl, rfl⟩ := pure_eq_ok hpure
  have hdrafts := lift_state_eq_ok houtcomes
  rw [GenerationErrors.gather_eq_ok_iff.1 hgather] at hdrafts
  exact ⟨first, second, fields, drafting_eq_ok hname, lift_state_eq_ok hpackage, hdrafts, rfl⟩

/-!
## What leaves do
-/

/-- A leaf may ask for the shared enum of its own type. -/
def Site.AsksAs (asks : Site → LeafType → Prop) (leaf : Site) : Prop :=
  ∀ type, leaf.kind.isLeaf = true → leaf.node.type = some type → asks leaf type

namespace LeafType

variable {type : LeafType}

theorem mapShared_apply (config : Config) (leaf : Site) (type : LeafType) (registry : Registry) :
    (mapShared config leaf type : Naming MappedType) registry =
      (.ok ⟨s!"{config.enumPackage}.{(Registry.sharedEnumName leaf.pathText type registry).1}",
        .enum, some config.enumImport⟩, (Registry.sharedEnumName leaf.pathText type registry).2) :=
  rfl

theorem steady_mapShared (h : asks leaf type) :
    Steady asks (mapShared config leaf type : Naming MappedType) where
  grows := fun _ => Registry.Grows.refl.sharedEnum h
  again := fun {registry after later mapped} hrun hkept => by
    rw [mapShared_apply] at hrun ⊢
    cases hname : Registry.sharedEnumName leaf.pathText type registry with
    | mk name ended =>
        rw [hname] at hrun
        cases hrun
        have hfind := hkept.enumNames _ _ (Registry.keptBy_sharedEnumName hname).2
        rw [Registry.sharedEnumName_of_find? hfind]

end LeafType

/-- The step asks for shared enums, and only those that it may ask for, and otherwise leaves the
registry alone. It never fails for want of a name. -/
inductive LeafStep (asks : Site → LeafType → Prop) : {α : Type} → Naming α → Prop where
  | pure {α : Type} (value : α) : LeafStep asks (pure value : Naming α)
  | throw {α : Type} {fault : GenerationError} (h : fault.isNaming = false) :
      LeafStep asks (throw fault : Naming α)
  | lift_except {α : Type} {outcome : Except GenerationError α} (h : LacksNoName outcome) :
      LeafStep asks (liftM outcome : Naming α)
  | shared {config : Config} {leaf : Site} {type : LeafType} (h : asks leaf type) :
      LeafStep asks (LeafType.mapShared config leaf type : Naming MappedType)
  | bind {α β : Type} {step : Naming α} {next : α → Naming β} (h : LeafStep asks step)
      (h' : ∀ value, LeafStep asks (next value)) : LeafStep asks (step >>= next)

theorem LeafStep.steady {α : Type} {step : Naming α} (h : LeafStep asks step) :
    Steady asks step := by
  induction h with
  | pure value => exact .pure value
  | throw _ => exact .throw _
  | lift_except _ => exact .lift_except _
  | shared h => exact LeafType.steady_mapShared h
  | bind _ _ ih ih' => exact .bind ih ih'

namespace LeafType

variable {type : LeafType}

theorem leafStep_resolve (h : asks leaf type) : LeafStep asks (type.resolve config table leaf) := by
  rw [resolve]
  cases hkind : type.kind with
  | enumeration members =>
      dsimp only
      split
      · exact .pure _
      · exact .shared h
  | identityref base => exact .shared h
  | union members =>
      dsimp only
      split
      · exact .shared h
      · exact .lift_except (lacksNoName_mapUnion _ _ _ _)
  | scalar s =>
      dsimp only
      split
      · exact .pure _
      · exact .throw rfl

theorem leafStep_mapKey (h : asks leaf type) : LeafStep asks (type.mapKey config leaf) := by
  refine .bind (leafStep_resolve h) fun mapped => ?_
  split
  · exact .bind (.throw rfl) fun _ => .pure _
  · exact .pure _

end LeafType

namespace Site

theorem leafStep_leafField (hkind : leaf.kind.isLeaf = true) (h : leaf.AsksAs asks) :
    LeafStep asks (leaf.leafField config) := by
  rw [leafField]
  cases htype : leaf.node.type with
  | none => exact .throw rfl
  | some type =>
      refine .bind (LeafType.leafStep_resolve (h type hkind htype)) fun mapped => ?_
      exact .lift_except (leaf.lacksNoName_fieldType type mapped)

theorem leafStep_keyField {key : String}
    (h : ∀ leaf, list.keyLeaf? set key = some leaf → leaf.AsksAs asks) :
    LeafStep asks (list.keyField config set key) := by
  rw [keyField]
  cases hleaf : list.keyLeaf? set key with
  | none => exact .throw rfl
  | some leaf =>
      dsimp only
      cases hkind : leaf.kind with
      | leaf =>
          cases htype : leaf.node.type with
          | none => exact .throw rfl
          | some type =>
              have hasks := h leaf hleaf type (by rw [hkind]; rfl) htype
              refine .bind (LeafType.leafStep_mapKey hasks) fun mapped => ?_
              exact .lift_except (leaf.lacksNoName_fieldType type mapped)
      | module | container | list | leafList | anydata => exact .throw rfl

end Site

end YangToProto

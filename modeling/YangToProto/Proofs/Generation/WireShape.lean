import Mathlib.Data.List.Forall2
import Mathlib.Data.Option.Basic
import YangToProto.Generation.Draft

/-!
# What goes over the wire

Two messages may stand in different packages, refer to other types and carry other options, and yet
agree in their fields' names, numbers and repetition and in their embedded enums
(`Message.Like`). The same goes for what messages are made from: drafts that are alike make messages
that are alike (`Scope.like_ofDrafts`, `Scope.Like.message`). What is asked of the names of messages
is a parameter.
-/

namespace YangToProto

/-- What of a field counts for the wire. -/
def Field.wire (field : Field) : UInt32 × String × Bool := (field.tag, field.name, field.repeated)

/-- What of a field without a tag counts for the wire. -/
def UntaggedField.wire (field : UntaggedField) : String × Bool := (field.name, field.repeated)

variable {N : String → String → Prop}

/-- The messages have names that are related, and otherwise agree in what counts for the wire. -/
structure Message.Like (N : String → String → Prop) (message other : Message) : Prop where
  name : N message.name other.name
  kind : other.kind = message.kind
  schemaPath : other.schemaPath = message.schemaPath
  fields : other.fields.map Field.wire = message.fields.map Field.wire
  enums : other.enums = message.enums

/-- Both types are enums to be embedded, the same ones, or both exist elsewhere. -/
inductive FieldType.Like : FieldType → FieldType → Prop where
  | reference (typeName typeName' : String) (importPath importPath' : Option String) :
      Like (.reference typeName importPath) (.reference typeName' importPath')
  | embedded (candidate : String) (values : EnumTable) :
      Like (.embedded candidate values) (.embedded candidate values)

/-- The fields have one name and types that are alike, and so are their key wrappers. -/
structure FieldDraft.Like (N : String → String → Prop) (draft other : FieldDraft) : Prop where
  schemaName : other.schemaName = draft.schemaName
  type : draft.type.Like other.type
  repeated : other.repeated = draft.repeated
  wrapper : Option.Rel (Message.Like N) draft.wrapper other.wrapper

theorem FieldDraft.like_without_wrapper {schemaName : String} {type type' : FieldType}
    (h : type.Like type') {repeated : Bool} {options options' : List String} :
    FieldDraft.Like N ⟨schemaName, type, repeated, options, none⟩
      ⟨schemaName, type', repeated, options', none⟩ :=
  ⟨rfl, h, rfl, .none⟩

theorem FieldDraft.forall₂_wrappers {drafts others : List FieldDraft}
    (h : List.Forall₂ (FieldDraft.Like N) drafts others) :
    List.Forall₂ (Message.Like N) (drafts.filterMap FieldDraft.wrapper)
      (others.filterMap FieldDraft.wrapper) := by
  induction h with
  | nil => exact .nil
  | @cons draft other _ _ hfirst _ ih =>
      have hwrapper := hfirst.wrapper
      rw [List.filterMap_cons, List.filterMap_cons]
      cases hone : draft.wrapper with
      | none =>
          cases htwo : other.wrapper with
          | none => exact ih
          | some _ =>
              rw [hone, htwo] at hwrapper
              cases hwrapper
      | some _ =>
          cases htwo : other.wrapper with
          | none =>
              rw [hone, htwo] at hwrapper
              cases hwrapper
          | some _ =>
              rw [hone, htwo] at hwrapper
              cases hwrapper with
              | some hlike => exact .cons hlike ih

namespace Scope

/-- The scopes agree in names and in what counts for the wire. -/
structure Like (scope other : Scope) : Prop where
  fieldNames : other.fieldNames = scope.fieldNames
  enumNames : other.enumNames = scope.enumNames
  fields : other.fields.map UntaggedField.wire = scope.fields.map UntaggedField.wire
  enums : other.enums = scope.enums

variable {scope other : Scope}

theorem Like.refl (scope : Scope) : scope.Like scope := ⟨rfl, rfl, rfl, rfl⟩

theorem Like.symm (h : scope.Like other) : other.Like scope :=
  ⟨h.fieldNames.symm, h.enumNames.symm, h.fields.symm, h.enums.symm⟩

theorem Like.trans {third : Scope} (h : scope.Like other) (h' : other.Like third) :
    scope.Like third :=
  ⟨h'.fieldNames.trans h.fieldNames, h'.enumNames.trans h.enumNames, h'.fields.trans h.fields,
    h'.enums.trans h.enums⟩

theorem like_addImport (scope : Scope) (path : String) : scope.Like (scope.addImport path) := by
  rw [addImport]
  split
  · exact .refl scope
  · exact ⟨rfl, rfl, rfl, rfl⟩

theorem Like.addField (h : scope.Like other) (schemaName typeName typeName' : String)
    (repeated : Bool) (options options' : List String) :
    (scope.addField schemaName typeName repeated options).Like
      (other.addField schemaName typeName' repeated options') := by
  rw [Scope.addField, Scope.addField, h.fieldNames]
  refine ⟨rfl, h.enumNames, ?_, h.enums⟩
  rw [List.map_append, List.map_append, h.fields]
  rfl

/-- A reference enters a scope like a field without an import. -/
theorem like_accept_reference (scope : Scope) {draft : FieldDraft} {typeName : String}
    {importPath : Option String} (h : draft.type = .reference typeName importPath) :
    (scope.addField draft.schemaName typeName draft.repeated draft.options).Like
      (scope.accept draft) := by
  rw [accept, h]
  cases importPath with
  | none => exact .refl _
  | some path => exact like_addImport _ path

theorem Like.accept (h : scope.Like other) {draft draft' : FieldDraft}
    (hlike : draft.Like N draft') : (scope.accept draft).Like (other.accept draft') := by
  have htype := hlike.type
  cases hone : draft.type with
  | reference typeName importPath =>
      cases htwo : draft'.type with
      | reference typeName' importPath' =>
          refine ((like_accept_reference scope hone).symm.trans ?_).trans
            (like_accept_reference other htwo)
          rw [hlike.schemaName, hlike.repeated]
          exact h.addField _ _ _ _ _ _
      | embedded _ _ =>
          rw [hone, htwo] at htype
          cases htype
  | embedded candidate values =>
      cases htwo : draft'.type with
      | reference _ _ =>
          rw [hone, htwo] at htype
          cases htype
      | embedded candidate' values' =>
          rw [hone, htwo] at htype
          cases htype
          rw [Scope.accept, Scope.accept, hone, htwo, hlike.schemaName, hlike.repeated]
          dsimp only
          rw [h.enumNames, h.enums]
          refine Like.addField ?_ _ _ _ _ _ _
          exact ⟨h.fieldNames, rfl, h.fields, rfl⟩

theorem like_ofDrafts {drafts others : List FieldDraft}
    (h : List.Forall₂ (FieldDraft.Like N) drafts others) :
    (ofDrafts drafts).Like (ofDrafts others) := by
  have hfold : ∀ scope other : Scope, scope.Like other →
      (drafts.foldl Scope.accept scope).Like (others.foldl Scope.accept other) := by
    induction h with
    | nil => exact fun _ _ hlike => hlike
    | cons hfirst _ ih => exact fun scope other hlike => ih _ _ (hlike.accept hfirst)
  exact hfold empty empty (.refl empty)

theorem map_wire_zipWith (fields : List UntaggedField) (tags : List UInt32) :
    (List.zipWith UntaggedField.withTag fields tags).map Field.wire =
      List.zipWith (fun field tag => (tag, field)) (fields.map UntaggedField.wire) tags := by
  rw [List.map_zipWith, List.zipWith_map_left]
  rfl

/-- Scopes that are alike give messages that are alike. -/
theorem Like.message (h : scope.Like other) {name name' : String} (hname : N name name')
    (package package' schemaPath : String) (tags : List UInt32) (kind : MessageKind) :
    (scope.message name package schemaPath tags kind).Like N
      (other.message name' package' schemaPath tags kind) := by
  refine ⟨hname, rfl, rfl, ?_, h.enums⟩
  change (List.zipWith UntaggedField.withTag other.fields tags).map Field.wire =
    (List.zipWith UntaggedField.withTag scope.fields tags).map Field.wire
  rw [map_wire_zipWith, map_wire_zipWith, h.fields]

theorem Like.length (h : scope.Like other) : other.fields.length = scope.fields.length := by
  simpa using congrArg List.length h.fields

theorem Like.names (h : scope.Like other) :
    other.fields.map UntaggedField.name = scope.fields.map UntaggedField.name := by
  have hnames := congrArg (List.map Prod.fst) h.fields
  rwa [List.map_map, List.map_map] at hnames

end Scope

end YangToProto

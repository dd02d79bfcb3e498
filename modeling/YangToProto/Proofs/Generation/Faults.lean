import YangToProto.Generation.Run
import YangToProto.Proofs.Generation.UnionParts

/-!
# Faults of a schema

The types of leaves and the values of enums can be at fault, but never for want of a name:
`GenerationError.isNaming` holds of none of the errors with which a type is mapped
(`LeafType.lacksNoName_mapUnion`), the values of an enumeration are numbered
(`LeafType.lacksNoName_enumerationValues`) or a shared enum is built
(`Registry.lacksNoNames_buildSharedEnums`).
-/

namespace YangToProto

/-- Whether the error tells of something that has no name: a message that was given none, or a node
that has no message. -/
def GenerationError.isNaming : GenerationError → Bool
  | nameResolution _ _ => true
  | moduleMessage _ => true
  | _ => false

/-- If the outcome is an error, then not for want of a name. -/
def LacksNoName {α : Type} (outcome : Except GenerationError α) : Prop :=
  ∀ error, outcome = .error error → error.isNaming = false

/-- If the outcome is errors, then none of them is for want of a name. -/
def LacksNoNames {α : Type} (outcome : Except GenerationErrors α) : Prop :=
  ∀ errors, outcome = .error errors → ∀ error ∈ errors, error.isNaming = false

section Outcomes

variable {α β : Type}

theorem lacksNoName_ok (value : α) : LacksNoName (.ok value) := fun _ h => nomatch h

theorem lacksNoName_error {error : GenerationError} (h : error.isNaming = false) :
    LacksNoName (.error error : Except GenerationError α) := fun _ heq => by
  cases heq
  exact h

theorem LacksNoName.map {outcome : Except GenerationError α} (h : LacksNoName outcome)
    (f : α → β) : LacksNoName (outcome.map f) := by
  cases outcome with
  | ok value => exact lacksNoName_ok (f value)
  | error error => exact lacksNoName_error (h error rfl)

theorem LacksNoName.mapError {outcome : Except GenerationError α} (h : LacksNoName outcome) :
    LacksNoNames (outcome.mapError fun error => [error]) := by
  cases outcome with
  | ok value => exact fun _ heq => nomatch heq
  | error error =>
      intro errors heq
      cases heq
      exact List.forall_mem_singleton.2 (h error rfl)

theorem lacksNoNames_ok (value : α) : LacksNoNames (.ok value) := fun _ h => nomatch h

/-- It makes no difference which value the errors stand in for. -/
theorem LacksNoNames.error {errors : GenerationErrors}
    (h : LacksNoNames (.error errors : Except GenerationErrors α)) :
    LacksNoNames (.error errors : Except GenerationErrors β) := fun more heq => by
  cases heq
  exact h errors rfl

theorem LacksNoNames.map {outcome : Except GenerationErrors α} (h : LacksNoNames outcome)
    (f : α → β) : LacksNoNames (outcome.map f) := by
  cases outcome with
  | ok value => exact lacksNoNames_ok (f value)
  | error errors => exact h.error

theorem lacksNoNames_gather {outcomes : List (Except GenerationErrors α)}
    (h : ∀ outcome ∈ outcomes, LacksNoNames outcome) :
    LacksNoNames (GenerationErrors.gather outcomes) := by
  induction outcomes with
  | nil => exact lacksNoNames_ok []
  | cons outcome rest ih =>
      have hrest := ih fun other ho => h other (List.mem_cons_of_mem _ ho)
      have hfirst := h outcome List.mem_cons_self
      cases outcome with
      | ok value => exact hrest.map _
      | error errors =>
          rw [GenerationErrors.gather]
          generalize GenerationErrors.gather rest = others at hrest
          cases others with
          | ok values => exact hfirst.error
          | error more =>
              intro all heq error hmem
              cases heq
              rcases List.mem_append.1 hmem with hmem | hmem
              · exact hfirst errors rfl error hmem
              · exact hrest more rfl error hmem

theorem lacksNoNames_both {one : Except GenerationErrors α} {other : Except GenerationErrors β}
    (h : LacksNoNames one) (h' : LacksNoNames other) :
    LacksNoNames (DirectorySet.both one other) := by
  intro errors heq error hmem
  cases one with
  | ok value =>
      cases other with
      | ok value' => cases heq
      | error more =>
          cases heq
          exact h' _ rfl error hmem
  | error first =>
      cases other with
      | ok value' =>
          cases heq
          exact h _ rfl error hmem
      | error more =>
          cases heq
          rcases List.mem_append.1 hmem with hmem | hmem
          · exact h first rfl error hmem
          · exact h' more rfl error hmem

end Outcomes

/-!
## Types and enums
-/

namespace LeafType

theorem lacksNoName_mapUnion (table : ScalarTable) (leaf : Site) (type : LeafType)
    (members : List LeafType) : LacksNoName (mapUnion table leaf type members) := by
  rw [mapUnion, addAllScalars_eq]
  cases hparts : (allParts members).foldlM (addPart table leaf) [] with
  | error error =>
      obtain ⟨part, _, rfl⟩ := exists_part_of_error hparts
      exact lacksNoName_error rfl
  | ok entries =>
      cases entries with
      | nil => exact lacksNoName_error rfl
      | cons entry others =>
          cases others with
          | nil => exact lacksNoName_ok _
          | cons _ _ => exact lacksNoName_ok _

end LeafType

theorem EnumMember.lacksNoName_addAll (path : String) (default : Option String) (table : EnumTable)
    (members : List EnumMember) : LacksNoName (addAll path default table members) := by
  induction members generalizing table with
  | nil => exact lacksNoName_ok table
  | cons member rest ih =>
      rw [addAll]
      split
      · exact ih table
      · dsimp only
        split
        · split
          · exact lacksNoName_error rfl
          · exact ih _
        · exact lacksNoName_error rfl

theorem lacksNoName_enumerationTable (path : String) (members : List EnumMember)
    (default : Option String) : LacksNoName (enumerationTable path members default) := by
  cases default with
  | none => exact EnumMember.lacksNoName_addAll _ _ _ _
  | some default =>
      rw [enumerationTable]
      split
      · exact EnumMember.lacksNoName_addAll _ _ _ _
      · exact lacksNoName_error rfl

theorem LeafType.lacksNoName_enumerationValues (path : String) (type : LeafType) :
    LacksNoName (type.enumerationValues path) := by
  rw [enumerationValues]
  split
  · exact lacksNoName_enumerationTable _ _ _
  · exact lacksNoName_error rfl

theorem Site.lacksNoName_fieldType (leaf : Site) (type : LeafType) (mapped : MappedType) :
    LacksNoName (leaf.fieldType type mapped) := by
  rw [fieldType]
  split
  · exact (LeafType.lacksNoName_enumerationValues _ _).map _
  · exact lacksNoName_ok _

theorem IdentityBase.lacksNoName_enumValues (base : IdentityBase) :
    LacksNoName base.enumValues := by
  rw [enumValues]
  split
  · exact lacksNoName_error rfl
  · exact lacksNoName_ok _

theorem SharedEnum.lacksNoName_build (definition : SharedEnum) : LacksNoName definition.build := by
  rw [build]
  cases definition.type.kind with
  | identityref base => exact (IdentityBase.lacksNoName_enumValues base).map _
  | enumeration members =>
      dsimp only
      split
      · exact lacksNoName_error rfl
      · exact (LeafType.lacksNoName_enumerationValues _ _).map _
  | union members =>
      dsimp only
      split
      · exact lacksNoName_error rfl
      · exact lacksNoName_error rfl
  | scalar s => exact lacksNoName_error rfl

theorem Registry.lacksNoNames_buildSharedEnums (registry : Registry) :
    LacksNoNames registry.buildSharedEnums := by
  refine lacksNoNames_gather fun outcome hmem => ?_
  obtain ⟨definition, _, rfl⟩ := List.mem_map.1 hmem
  exact definition.lacksNoName_build.mapError

end YangToProto

import YangToProto.Generation.TypeMapping

/-!
# Parts of unions

A union may have unions among its members. Looking up the scalars of all of them comes to going
along the list of its parts, which are the types that are not unions, from left to right
(`LeafType.addAllScalars_eq`). A part without an entry in the table stops the walk
(`LeafType.exists_part_of_error`).
-/

namespace YangToProto

namespace LeafType

mutual

/-- The types that are not unions in a type, with their names. -/
def parts : LeafType → List (String × TypeKind)
  | ⟨name, kind, _⟩ => kindParts name kind

/-- The types that are not unions in a type of the given name and kind. -/
def kindParts (name : String) : TypeKind → List (String × TypeKind)
  | .scalar s => [(name, .scalar s)]
  | .enumeration members => [(name, .enumeration members)]
  | .identityref base => [(name, .identityref base)]
  | .union members => allParts members

/-- The types that are not unions in several types. -/
def allParts : List LeafType → List (String × TypeKind)
  | [] => []
  | type :: rest => type.parts ++ allParts rest

end

/-- The table entries found so far with that of one more part. -/
def addPart (table : ScalarTable) (leaf : Site) (found : List String)
    (part : String × TypeKind) : Except GenerationError (List String) :=
  match table.kind? part.2 with
  | some entry => .ok (addEntry found entry)
  | none => .error (unsupported leaf part.1)

variable {table : ScalarTable} {leaf : Site}

theorem foldlM_addPart_singleton (found : List String) (part : String × TypeKind) :
    [part].foldlM (addPart table leaf) found = addPart table leaf found part := by
  rw [List.foldlM_cons]
  exact bind_pure _

mutual

theorem addScalars_eq (found : List String) (type : LeafType) :
    addScalars table leaf found type = type.parts.foldlM (addPart table leaf) found := by
  obtain ⟨name, kind, default⟩ := type
  rw [addScalars, parts]
  exact addKindScalars_eq found name kind
termination_by structural type

theorem addKindScalars_eq (found : List String) (name : String) (kind : TypeKind) :
    addKindScalars table leaf found name kind =
      (kindParts name kind).foldlM (addPart table leaf) found := by
  cases kind with
  | scalar s => rw [kindParts, foldlM_addPart_singleton, addKindScalars, addPart]; rfl
  | enumeration members => rw [kindParts, foldlM_addPart_singleton, addKindScalars]; rfl
  | identityref base => rw [kindParts, foldlM_addPart_singleton, addKindScalars]; rfl
  | union members =>
      rw [kindParts, addKindScalars]
      exact addAllScalars_eq found members
termination_by structural kind

/-- The scalars of the members of a union are those of its parts in order. -/
theorem addAllScalars_eq (found : List String) (types : List LeafType) :
    addAllScalars table leaf found types =
      (allParts types).foldlM (addPart table leaf) found := by
  cases types with
  | nil => rfl
  | cons type rest =>
      rw [allParts, List.foldlM_append, addAllScalars, addScalars_eq found type]
      exact bind_congr fun entries => addAllScalars_eq entries rest
termination_by structural types

end

theorem addPart_eq_error {found : List String} {part : String × TypeKind}
    {error : GenerationError} (h : addPart table leaf found part = .error error) :
    error = unsupported leaf part.1 := by
  rw [addPart] at h
  split at h
  · cases h
  · exact (Except.error.inj h).symm

/-- What stops the walk is a part that has no entry. -/
theorem exists_part_of_error {found : List String} {parts : List (String × TypeKind)}
    {error : GenerationError} (h : parts.foldlM (addPart table leaf) found = .error error) :
    ∃ part ∈ parts, error = unsupported leaf part.1 := by
  induction parts generalizing found with
  | nil => cases h
  | cons part rest ih =>
      rw [List.foldlM_cons] at h
      cases hpart : addPart table leaf found part with
      | error fault =>
          rw [hpart] at h
          cases h
          exact ⟨part, List.mem_cons_self, addPart_eq_error hpart⟩
      | ok entries =>
          rw [hpart] at h
          obtain ⟨stop, hstop, hname⟩ := ih h
          exact ⟨stop, List.mem_cons_of_mem _ hstop, hname⟩

end LeafType

end YangToProto

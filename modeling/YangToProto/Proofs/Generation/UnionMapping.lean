import Mathlib.Data.List.Basic
import YangToProto.Proofs.Generation.UnionParts
import YangToProto.Proofs.Running

/-!
# Types of unions

What a union without enumerated members becomes is told by the entries of its parts: the entry that
all of them have, a string if they differ, and an error at the first part that has none
(`LeafType.mapUnion_apply`). A key has the entries of the plain table and must not be a string for
want of a common entry (`LeafType.mapping_of_union`). Neither the order of the members nor the
unions they are grouped in take part in this, so a union with rearranged members has the same type.
-/

namespace YangToProto

namespace LeafType

variable {config : Config} {table : ScalarTable} {leaf : Site} {type : LeafType}
  {types others members : List LeafType} {parts : List (String × TypeKind)} {found : List String}
  {registry : Registry}

/-- Whether a part has no entry in the table. -/
def lacksEntry (table : ScalarTable) (part : String × TypeKind) : Bool :=
  (table.kind? part.2).isNone

/-- There are parts and all of them have the one entry. -/
def Uniform (table : ScalarTable) (parts : List (String × TypeKind)) (entry : String) : Prop :=
  parts ≠ [] ∧ ∀ part ∈ parts, table.kind? part.2 = some entry

/-!
## Entries of parts
-/

theorem addPart_of_lacksEntry {part : String × TypeKind} (h : lacksEntry table part = true) :
    addPart table leaf found part = .error (unsupported leaf part.1) := by
  rw [addPart, Option.isNone_iff_eq_none.1 h]

theorem addPart_of_entry {part : String × TypeKind} {entry : String}
    (h : table.kind? part.2 = some entry) :
    addPart table leaf found part = .ok (addEntry found entry) := by
  rw [addPart, h]

theorem mem_addEntry {entry other : String} :
    other ∈ addEntry found entry ↔ other ∈ found ∨ other = entry := by
  rw [addEntry]
  split
  · rename_i hmem
    exact ⟨Or.inl, fun h => h.elim id fun heq => heq ▸ List.contains_iff_mem.1 hmem⟩
  · rw [List.mem_append, List.mem_singleton]

theorem nodup_addEntry (h : found.Nodup) (entry : String) : (addEntry found entry).Nodup := by
  rw [addEntry]
  split
  · exact h
  · rename_i hnew
    refine List.nodup_append.2 ⟨h, List.pairwise_singleton _ _, fun old hold added hadded heq => ?_⟩
    rw [List.mem_singleton.1 hadded] at heq
    exact hnew (List.contains_iff_mem.2 (heq ▸ hold))

theorem exists_entry_of_lacksEntry {part : String × TypeKind} (h : lacksEntry table part ≠ true) :
    ∃ entry, table.kind? part.2 = some entry := by
  rw [← Option.isSome_iff_exists, Option.isSome_iff_ne_none]
  exact fun hnone => h (Option.isNone_iff_eq_none.2 hnone)

/-- The first part without an entry stops the walk. -/
theorem foldlM_addPart_of_find? {part : String × TypeKind}
    (h : parts.find? (lacksEntry table) = some part) :
    parts.foldlM (addPart table leaf) found = .error (unsupported leaf part.1) := by
  induction parts generalizing found with
  | nil => cases h
  | cons head rest ih =>
      rw [List.foldlM_cons]
      by_cases hlacks : lacksEntry table head = true
      · rw [List.find?_cons_of_pos hlacks] at h
        cases h
        rw [addPart_of_lacksEntry hlacks]
        rfl
      · rw [List.find?_cons_of_neg hlacks] at h
        obtain ⟨entry, hentry⟩ := exists_entry_of_lacksEntry hlacks
        rw [addPart_of_entry hentry]
        exact ih h

/-- If every part has an entry, the walk finds each of their entries once. -/
theorem exists_entries (leaf : Site) (hall : ∀ part ∈ parts, lacksEntry table part ≠ true)
    (h : found.Nodup) :
    ∃ entries, parts.foldlM (addPart table leaf) found = .ok entries ∧ entries.Nodup ∧
      ∀ entry, entry ∈ entries ↔
        entry ∈ found ∨ ∃ part ∈ parts, table.kind? part.2 = some entry := by
  induction parts generalizing found with
  | nil => exact ⟨found, rfl, h, fun entry => by simp⟩
  | cons head rest ih =>
      obtain ⟨first, hfirst⟩ := exists_entry_of_lacksEntry (hall head List.mem_cons_self)
      obtain ⟨entries, hwalk, hnodup, hmem⟩ :=
        ih (fun part hpart => hall part (List.mem_cons_of_mem _ hpart)) (nodup_addEntry h first)
      refine ⟨entries, ?_, hnodup, fun entry => ?_⟩
      · rw [List.foldlM_cons, addPart_of_entry hfirst]
        exact hwalk
      · rw [hmem, mem_addEntry, or_assoc, List.exists_mem_cons_iff, hfirst, Option.some_inj,
          eq_comm (a := entry)]

theorem Uniform.entries_eq {entries : List String} {entry : String}
    (h : Uniform table parts entry) (hnodup : entries.Nodup)
    (hmem : ∀ other, other ∈ entries ↔ ∃ part ∈ parts, table.kind? part.2 = some other) :
    entries = [entry] := by
  obtain ⟨hne, hall⟩ := h
  obtain ⟨part, hpart⟩ := List.exists_mem_of_ne_nil _ hne
  have hentry : entry ∈ entries := (hmem entry).2 ⟨part, hpart, hall part hpart⟩
  have honly : ∀ other ∈ entries, other = entry := fun other hother => by
    obtain ⟨part, hpart, hkind⟩ := (hmem other).1 hother
    exact Option.some.inj (hkind.symm.trans (hall part hpart))
  match entries, hentry, honly, hnodup with
  | [one], _, honly, _ => rw [honly one List.mem_cons_self]
  | one :: two :: _, _, honly, hnodup =>
      have hsame : one = two := (honly one (by simp)).trans (honly two (by simp)).symm
      exact absurd (hsame ▸ List.mem_cons_self) (List.nodup_cons.1 hnodup).1

/-- Parts lack an entry, or there are none, or they have one entry, or they differ. -/
theorem parts_cases (table : ScalarTable) (parts : List (String × TypeKind)) :
    (∃ part, parts.find? (lacksEntry table) = some part) ∨ parts = [] ∨
      (∃ entry, Uniform table parts entry) ∨
      (parts.find? (lacksEntry table) = none ∧ parts ≠ [] ∧
        ∀ entry, ¬ Uniform table parts entry) := by
  cases hfind : parts.find? (lacksEntry table) with
  | some part => exact Or.inl ⟨part, rfl⟩
  | none =>
      by_cases hempty : parts = []
      · exact Or.inr (Or.inl hempty)
      by_cases huniform : ∃ entry, Uniform table parts entry
      · exact Or.inr (Or.inr (Or.inl huniform))
      · exact Or.inr (Or.inr (Or.inr ⟨rfl, hempty, not_exists.1 huniform⟩))

/-!
## The type of a union
-/

/-- What a union becomes, given its parts. -/
theorem mapUnion_apply (table : ScalarTable) (leaf : Site) (type : LeafType)
    (members : List LeafType) :
    (∀ part, (allParts members).find? (lacksEntry table) = some part →
      mapUnion table leaf type members = .error (unsupported leaf part.1)) ∧
    (allParts members = [] →
      mapUnion table leaf type members = .error (unsupported leaf type.name)) ∧
    (∀ entry, Uniform table (allParts members) entry →
      mapUnion table leaf type members = .ok (.scalar entry)) ∧
    ((allParts members).find? (lacksEntry table) = none → allParts members ≠ [] →
      (∀ entry, ¬ Uniform table (allParts members) entry) →
      mapUnion table leaf type members = .ok ⟨table.string, .union, none⟩) := by
  rw [mapUnion, addAllScalars_eq]
  refine ⟨fun part hpart => ?_, fun hempty => ?_, fun entry huniform => ?_,
    fun hnone hparts hdiffer => ?_⟩
  · rw [foldlM_addPart_of_find? hpart]
    rfl
  · rw [hempty]
    rfl
  · have hall : ∀ part ∈ allParts members, lacksEntry table part ≠ true := fun part hpart => by
      rw [lacksEntry, huniform.2 part hpart]
      exact Bool.noConfusion
    obtain ⟨entries, hwalk, hnodup, hmem⟩ :=
      exists_entries leaf hall List.nodup_nil
    have hone := huniform.entries_eq hnodup fun other => by simpa using hmem other
    rw [hwalk, hone]
    rfl
  · obtain ⟨entries, hwalk, hnodup, hmem⟩ :=
      exists_entries leaf (List.find?_eq_none.1 hnone) List.nodup_nil
    rw [hwalk]
    match entries, hmem with
    | [], hmem =>
        obtain ⟨part, hpart⟩ := List.exists_mem_of_ne_nil _ hparts
        obtain ⟨entry, hentry⟩ := exists_entry_of_lacksEntry (List.find?_eq_none.1 hnone part hpart)
        exact absurd ((hmem entry).2 (Or.inr ⟨part, hpart, hentry⟩)) List.not_mem_nil
    | [one], hmem =>
        refine absurd ⟨hparts, fun part hpart => ?_⟩ (hdiffer one)
        obtain ⟨entry, hentry⟩ := exists_entry_of_lacksEntry (List.find?_eq_none.1 hnone part hpart)
        rw [hentry, List.mem_singleton.1 ((hmem entry).2 (Or.inr ⟨part, hpart, hentry⟩))]
    | _ :: _ :: _, _ => rfl

theorem mapUnion_eq_scalar_iff {entry : String} :
    mapUnion table leaf type members = .ok (.scalar entry) ↔
      Uniform table (allParts members) entry := by
  obtain ⟨hlacks, hempty, huniform, hdiffer⟩ := mapUnion_apply table leaf type members
  refine ⟨fun hrun => ?_, huniform entry⟩
  rcases parts_cases table (allParts members) with
    ⟨part, hpart⟩ | hparts | ⟨found, hfound⟩ | ⟨hfind, hparts, hnone⟩
  · rw [hlacks part hpart] at hrun
    cases hrun
  · rw [hempty hparts] at hrun
    cases hrun
  · rw [huniform found hfound] at hrun
    cases hrun
    exact hfound
  · rw [hdiffer hfind hparts hnone] at hrun
    cases hrun

/-- The type of a leaf that is or is not a key. -/
def mapAs (config : Config) (leaf : Site) (type : LeafType) : Bool → Naming MappedType
  | true => type.mapKey config leaf
  | false => type.mapValue config leaf

/-- The table for leaves that are or are not keys. -/
def tableAs (config : Config) : Bool → ScalarTable
  | true => .plain
  | false => config.valueTable

theorem resolve_union (hkind : type.kind = .union members) (henum : type.containsEnum = false)
    (registry : Registry) :
    type.resolve config table leaf registry =
      (mapUnion table leaf type members, registry) := by
  rw [resolve, hkind]
  dsimp only
  rw [if_neg (by rw [henum]; exact Bool.noConfusion)]
  rfl

/-- A key must not be a string for want of a common entry. -/
def keyChecked (leaf : Site) (type : LeafType) (mapped : MappedType) :
    Except GenerationError MappedType :=
  if mapped.kind = .union then .error (.keyType (pathText leaf.path.dropLast) leaf.name type.name)
  else .ok mapped

theorem mapAs_union (asKey : Bool) (hkind : type.kind = .union members)
    (henum : type.containsEnum = false) (registry : Registry) :
    type.mapAs config leaf asKey registry =
      ((mapUnion (tableAs config asKey) leaf type members).bind fun mapped =>
        if asKey then keyChecked leaf type mapped else .ok mapped, registry) := by
  cases asKey with
  | false =>
      rw [mapAs, mapValue, resolve_union hkind henum, tableAs]
      cases mapUnion config.valueTable leaf type members <;> rfl
  | true =>
      rw [mapAs, mapKey, bind_apply, resolve_union hkind henum, tableAs]
      cases mapUnion .plain leaf type members with
      | error fault => rfl
      | ok mapped =>
          dsimp only [Except.bind]
          rw [keyChecked]
          by_cases hunion : mapped.kind = .union
          · rw [if_pos (beq_iff_eq.2 hunion)]
            simp only [if_true, if_pos hunion]
            rfl
          · rw [if_neg (fun heq => hunion (beq_iff_eq.1 heq))]
            simp only [if_true, if_neg hunion]
            rfl

theorem mapAs_union_eq_ok_iff (asKey : Bool) (hkind : type.kind = .union members)
    (henum : type.containsEnum = false) {registry after : Registry} {mapped : MappedType} :
    type.mapAs config leaf asKey registry = (.ok mapped, after) ↔
      mapUnion (tableAs config asKey) leaf type members = .ok mapped ∧
        (asKey = true → mapped.kind ≠ .union) ∧ registry = after := by
  rw [mapAs_union asKey hkind henum]
  cases mapUnion (tableAs config asKey) leaf type members with
  | error fault =>
      constructor
      · intro hrun
        cases hrun
      · rintro ⟨hunion, _⟩
        cases hunion
  | ok found =>
      constructor
      · intro hrun
        cases asKey with
        | false =>
            cases hrun
            exact ⟨rfl, Bool.noConfusion, rfl⟩
        | true =>
            simp only [Except.bind, keyChecked, if_true] at hrun
            split at hrun
            · cases hrun
            · rename_i hscalar
              cases hrun
              exact ⟨rfl, fun _ => hscalar, rfl⟩
      · rintro ⟨hfound, hkey, rfl⟩
        cases hfound
        cases asKey with
        | false => rfl
        | true => simp only [Except.bind, keyChecked, if_true, if_neg (hkey rfl)]

/-!
## Rearranged members
-/

/-- Members of a union in another order, repeated, or grouped into other unions, at any depth. -/
inductive Rearranged : List LeafType → List LeafType → Prop
  | reorder {types others : List LeafType} (h : types.Perm others) : Rearranged types others
  | again {type : LeafType} {types : List LeafType} (h : type ∈ types) :
      Rearranged types (type :: types)
  | flatten (name : String) (default : Option String) (inner rest : List LeafType) :
      Rearranged (⟨name, .union inner, default⟩ :: rest) (inner ++ rest)
  | within (name : String) (default : Option String) {inner others : List LeafType}
      (rest : List LeafType) (h : Rearranged inner others) :
      Rearranged (⟨name, .union inner, default⟩ :: rest) (⟨name, .union others, default⟩ :: rest)
  | symm {types others : List LeafType} (h : Rearranged types others) : Rearranged others types
  | trans {types middle others : List LeafType} (h : Rearranged types middle)
      (h' : Rearranged middle others) : Rearranged types others

theorem allParts_eq_flatMap (types : List LeafType) :
    allParts types = types.flatMap LeafType.parts := by
  induction types with
  | nil => rfl
  | cons type rest ih => rw [allParts, List.flatMap_cons, ih]

theorem parts_union (name : String) (inner : List LeafType) (default : Option String) :
    LeafType.parts ⟨name, .union inner, default⟩ = allParts inner := by
  rw [LeafType.parts, kindParts]

/-- Rearranged members have the same parts. -/
theorem Rearranged.mem_allParts_iff (h : Rearranged types others) (part : String × TypeKind) :
    part ∈ allParts types ↔ part ∈ allParts others := by
  induction h with
  | reorder hperm =>
      rw [allParts_eq_flatMap, allParts_eq_flatMap]
      exact (hperm.flatMap_right _).mem_iff
  | again hmem =>
      rw [allParts, List.mem_append]
      refine ⟨Or.inr, fun hpart => hpart.elim (fun hpart => ?_) id⟩
      rw [allParts_eq_flatMap]
      exact List.mem_flatMap.2 ⟨_, hmem, hpart⟩
  | flatten name default inner rest =>
      rw [allParts, parts_union, allParts_eq_flatMap (inner ++ rest), List.flatMap_append,
        ← allParts_eq_flatMap, ← allParts_eq_flatMap]
  | within name default rest _ ih =>
      rw [allParts, allParts, parts_union, parts_union, List.mem_append, List.mem_append, ih]
  | symm _ ih => exact ih.symm
  | trans _ _ ih ih' => exact ih.trans ih'

mutual

theorem containsEnum_eq_any_parts (type : LeafType) :
    type.containsEnum = type.parts.any (·.2.containsEnum) := by
  obtain ⟨name, kind, default⟩ := type
  rw [containsEnum, LeafType.parts]
  exact containsEnum_eq_any_kindParts name kind
termination_by structural type

theorem containsEnum_eq_any_kindParts (name : String) (kind : TypeKind) :
    kind.containsEnum = (kindParts name kind).any (·.2.containsEnum) := by
  cases kind with
  | scalar s => simp [kindParts]
  | enumeration members => simp [kindParts]
  | identityref base => simp [kindParts]
  | union members =>
      rw [TypeKind.containsEnum, kindParts]
      exact anyContainsEnum_eq_any_allParts members
termination_by structural kind

/-- A union has an enumerated member exactly if it has an enumerated part. -/
theorem anyContainsEnum_eq_any_allParts (types : List LeafType) :
    anyContainsEnum types = (allParts types).any (·.2.containsEnum) := by
  cases types with
  | nil => rfl
  | cons type rest =>
      rw [anyContainsEnum, allParts, List.any_append, containsEnum_eq_any_parts type,
        anyContainsEnum_eq_any_allParts rest]
termination_by structural types

end

theorem containsEnum_of_union (hkind : type.kind = .union members) :
    type.containsEnum = anyContainsEnum members := by
  obtain ⟨name, kind, default⟩ := type
  obtain rfl : kind = .union members := hkind
  rw [containsEnum, TypeKind.containsEnum]

theorem Rearranged.anyContainsEnum_eq (h : Rearranged types others) :
    anyContainsEnum others = anyContainsEnum types := by
  rw [anyContainsEnum_eq_any_allParts, anyContainsEnum_eq_any_allParts, Bool.eq_iff_iff,
    List.any_eq_true, List.any_eq_true]
  simp only [h.mem_allParts_iff]

theorem Rearranged.allParts_eq_nil_iff (h : Rearranged types others) :
    allParts types = [] ↔ allParts others = [] := by
  rw [List.eq_nil_iff_forall_not_mem, List.eq_nil_iff_forall_not_mem]
  simp only [h.mem_allParts_iff]

theorem Rearranged.find?_eq_none_iff (h : Rearranged types others) :
    (allParts types).find? (lacksEntry table) = none ↔
      (allParts others).find? (lacksEntry table) = none := by
  rw [List.find?_eq_none, List.find?_eq_none]
  simp only [h.mem_allParts_iff]

theorem Rearranged.uniform_iff (h : Rearranged types others) (entry : String) :
    Uniform table (allParts types) entry ↔ Uniform table (allParts others) entry := by
  rw [Uniform, Uniform, Ne, Ne, h.allParts_eq_nil_iff]
  simp only [h.mem_allParts_iff]

/-- A union with rearranged members has the same type. -/
theorem mapUnion_of_rearranged {other : LeafType} {mapped : MappedType}
    (h : Rearranged members others) (hrun : mapUnion table leaf type members = .ok mapped) :
    mapUnion table leaf other others = .ok mapped := by
  obtain ⟨hlacks, hempty, huniform, hdiffer⟩ := mapUnion_apply table leaf type members
  obtain ⟨_, _, huniform', hdiffer'⟩ := mapUnion_apply table leaf other others
  rcases parts_cases table (allParts members) with
    ⟨part, hpart⟩ | hparts | ⟨entry, hentry⟩ | ⟨hfind, hparts, hnone⟩
  · rw [hlacks part hpart] at hrun
    cases hrun
  · rw [hempty hparts] at hrun
    cases hrun
  · rw [← hrun, huniform entry hentry, huniform' entry ((h.uniform_iff entry).1 hentry)]
  · have hparts' : allParts others ≠ [] := fun heq => hparts (h.allParts_eq_nil_iff.2 heq)
    rw [← hrun, hdiffer hfind hparts hnone, hdiffer' (h.find?_eq_none_iff.1 hfind) hparts'
      fun entry hentry => hnone entry ((h.uniform_iff entry).2 hentry)]

/-- The type of a leaf whose type is a union without enumerated members. The first part without an
entry in the table in use is an error, and so is a union without parts. The union is a scalar
exactly if all parts have that scalar as their entry. If they differ it is a string, which a key
must not be. Nothing of this changes the registry, and a union with rearranged members has the same
type. -/
theorem mapping_of_union (config : Config) (leaf : Site) (type : LeafType)
    (members : List LeafType) (asKey : Bool) (registry : Registry)
    (hkind : type.kind = .union members) (henum : type.containsEnum = false) :
    (∀ part, (allParts members).find? (lacksEntry (tableAs config asKey)) = some part →
      type.mapAs config leaf asKey registry =
        (.error (.unsupportedType leaf.pathText part.1), registry)) ∧
    (allParts members = [] →
      type.mapAs config leaf asKey registry =
        (.error (.unsupportedType leaf.pathText type.name), registry)) ∧
    (∀ entry, type.mapAs config leaf asKey registry = (.ok ⟨entry, .scalar, none⟩, registry) ↔
      Uniform (tableAs config asKey) (allParts members) entry) ∧
    ((allParts members).find? (lacksEntry (tableAs config asKey)) = none →
      allParts members ≠ [] →
      (∀ entry, ¬ Uniform (tableAs config asKey) (allParts members) entry) →
      type.mapAs config leaf asKey registry =
        (if asKey then .error (.keyType (pathText leaf.path.dropLast) leaf.name type.name)
          else .ok ⟨config.valueTable.string, .union, none⟩, registry)) ∧
    ∀ mapped after, type.mapAs config leaf asKey registry = (.ok mapped, after) →
      ∀ (other : LeafType) (others : List LeafType), other.kind = .union others →
        Rearranged members others →
        other.mapAs config leaf asKey registry = (.ok mapped, after) := by
  obtain ⟨hlacks, hempty, _, hdiffer⟩ :=
    mapUnion_apply (tableAs config asKey) leaf type members
  refine ⟨fun part hpart => ?_, fun hparts => ?_, fun entry => ?_, fun hfind hparts hnone => ?_,
    fun mapped after hrun other others hother hrearranged => ?_⟩
  · rw [mapAs_union asKey hkind henum, hlacks part hpart]
    rfl
  · rw [mapAs_union asKey hkind henum, hempty hparts]
    rfl
  · rw [mapAs_union_eq_ok_iff asKey hkind henum]
    exact ⟨fun h => mapUnion_eq_scalar_iff.1 h.1,
      fun h => ⟨mapUnion_eq_scalar_iff.2 h, fun _ => MappedKind.noConfusion, rfl⟩⟩
  · rw [mapAs_union asKey hkind henum, hdiffer hfind hparts hnone]
    cases asKey <;> rfl
  · have henum' : other.containsEnum = false := by
      rw [containsEnum_of_union hother, hrearranged.anyContainsEnum_eq,
        ← containsEnum_of_union hkind, henum]
    obtain ⟨hunion, hkey, hsame⟩ := (mapAs_union_eq_ok_iff asKey hkind henum).1 hrun
    exact (mapAs_union_eq_ok_iff asKey hother henum').2
      ⟨mapUnion_of_rearranged hrearranged hunion, hkey, hsame⟩

/-- A union of narrow integers is one integer in a key, and so is the union of the same integers in
another order and grouping. -/
theorem mapping_of_nested_union :
    let leaf : Site := ⟨⟨"id", .leaf, [], none, []⟩, []⟩
    let small := builtin (.scalar .int8)
    let wide := builtin (.scalar .int32)
    (union [small, union [wide]]).mapAs {} leaf true (.new "m") =
        (.ok ⟨"sint32", .scalar, none⟩, .new "m") ∧
      (union [wide, small]).mapAs {} leaf true (.new "m") =
        (.ok ⟨"sint32", .scalar, none⟩, .new "m") := by
  intro leaf small wide
  have hparts : allParts [small, union [wide]] =
      [("int8", .scalar .int8), ("int32", .scalar .int32)] := rfl
  have huniform : Uniform .plain (allParts [small, union [wide]]) "sint32" := by
    rw [Uniform, hparts]
    simp [ScalarTable.kind?, ScalarTable.scalar?, ScalarTable.plain]
  obtain ⟨_, _, hscalar, _, hrearranged⟩ :=
    mapping_of_union {} leaf (union [small, union [wide]]) _ true (.new "m") rfl rfl
  have hfirst := (hscalar "sint32").2 huniform
  refine ⟨hfirst, hrearranged _ _ hfirst (union [wide, small]) _ rfl ?_⟩
  exact (Rearranged.reorder (List.Perm.swap (union [wide]) small [])).trans
    (.flatten "union" none [wide] [small])

end LeafType

end YangToProto

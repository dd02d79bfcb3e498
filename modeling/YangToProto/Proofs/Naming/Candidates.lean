import YangToProto.Proofs.Naming.Prepass
import YangToProto.Proofs.Naming.SharedEnums
import YangToProto.Proofs.Proto.LegalNames
import YangToProto.Proofs.Schema.SchemaNames
import YangToProto.Proofs.Text.Segments

/-!
# What names are made from

The name of a message is made from the words of its node's name, and that of a key wrapper from the
name of the list's message (`Registry.InTurn.forall_name`). The name of a shared enum is made from
the words of a typedef's or an identity base's name (`Registry.EnumsMade`). Whatever candidate there
is, it is itself one of the names in its scope.
-/

namespace YangToProto

open Identifier

/-!
## Sources of shared enums
-/

namespace LeafType

variable {type other : LeafType} {source source' path path' : String}

theorem enumCandidate_eq (h : type.source? = some source) (path : String) :
    type.enumCandidate path = pascalCase source := by
  rw [source?] at h
  rw [enumCandidate]
  cases hkind : type.kind with
  | scalar s => simp [hkind] at h
  | enumeration members =>
      simp only [hkind] at h
      split at h
      · cases h
      · cases h
        rfl
  | identityref base =>
      simp only [hkind] at h
      cases h
      rfl
  | union members => simp [hkind] at h

/-- The source stands behind a colon in the key of the shared enum. -/
theorem exists_enumKey_eq (h : type.source? = some source) (path : String) :
    ∃ front, (type.enumKey path).toList = front ++ ':' :: source.toList := by
  rw [source?] at h
  rw [enumKey]
  cases hkind : type.kind with
  | scalar s => simp [hkind] at h
  | enumeration members =>
      simp only [hkind] at h
      split at h
      · cases h
      · cases h
        exact ⟨"typedef".toList, String.toList_append ..⟩
  | identityref base =>
      simp only [hkind] at h
      cases h
      exact ⟨("identity:" ++ base.module.getD "").toList, by simp⟩
  | union members => simp [hkind] at h

/-- Where sources hold no colons, types of one key have one source. -/
theorem source_eq_of_enumKey_eq (h : type.source? = some source) (h' : other.source? = some source')
    (hcolon : ':' ∉ source.toList) (hcolon' : ':' ∉ source'.toList)
    (hkey : type.enumKey path = other.enumKey path') : source = source' := by
  obtain ⟨front, hfront⟩ := exists_enumKey_eq h path
  obtain ⟨front', hfront'⟩ := exists_enumKey_eq h' path'
  have hpieces := congrArg (Segments.split ':') (congrArg String.toList hkey)
  -- the source is what stands behind the last colon
  rw [hfront, hfront', Segments.split_append_cons, Segments.split_append_cons,
    Segments.split_of_not_mem hcolon, Segments.split_of_not_mem hcolon'] at hpieces
  obtain ⟨_, hsame⟩ := List.append_inj' hpieces rfl
  exact String.toList_injective (List.singleton_inj.1 hsame)

end LeafType

namespace Registry

variable {tree : Tree} {compress : Bool} {registry after start : Registry} {owners : List Owner}
  {owner : Owner} {site : Site} {name : String}

/-!
## Messages
-/

theorem InTurn.madeFrom (h : registry.InTurn tree compress owners) (howner : owner ∈ owners)
    (hname : registry.name? owner = some name) : MadeFrom (registry.candidate owner) name := by
  obtain ⟨package, used, hplace, _⟩ := h.named owner howner
  obtain rfl := Option.some.inj ((place?_eq_some_iff.1 hplace).2.symm.trans hname)
  exact used.madeFrom_firstFree _

/-- What holds of all that is made from the words of the names of directories, and of all that is
made from the names of their messages as key wrappers, holds of every name. -/
theorem InTurn.forall_name (h : registry.InTurn tree compress owners) {P : String → Prop}
    (hmade : ∀ {candidate name}, P candidate → MadeFrom candidate name → P name)
    (hmessage : ∀ site, Owner.directory site ∈ owners → P (pascalCase site.name))
    (hkey : ∀ {listMessage}, P listMessage → P (keyCandidate listMessage))
    (howner : owner ∈ owners) (hname : registry.name? owner = some name) : P name := by
  have hdirectory : ∀ {site name}, Owner.directory site ∈ owners →
      registry.name? (.directory site) = some name → P name := fun hmem hfound =>
    hmade (hmessage _ hmem) (h.madeFrom hmem hfound)
  cases owner with
  | directory site => exact hdirectory howner hname
  | keys list =>
      have hlist := (h.lists list howner).subset List.mem_cons_self
      obtain ⟨⟨package, listMessage⟩, hplace⟩ := h.exists_place? hlist
      have hfound := (place?_eq_some_iff.1 hplace).2
      have hmadeFrom := h.madeFrom howner hname
      have hcandidate : registry.candidate (.keys list) = keyCandidate listMessage := by
        have hfind : registry.messages.find? list.pathText = some listMessage := hfound
        rw [candidate, hfind]
        rfl
      rw [hcandidate] at hmadeFrom
      exact hmade (hkey (hdirectory hlist hfound)) hmadeFrom

/-- The candidate of a directory is the name of some message in its package. -/
theorem InTurn.exists_candidate (h : registry.InTurn tree compress owners)
    (howner : Owner.directory site ∈ owners) :
    ∃ other ∈ owners, registry.name? other = some (pascalCase site.name) := by
  obtain ⟨package, used, hplace, hused⟩ := h.named _ howner
  cases hfree : used.contains (pascalCase site.name) with
  | false =>
      have hcandidate : registry.candidate (.directory site) = pascalCase site.name := rfl
      rw [hcandidate, NameSet.firstFree_of_free hfree] at hplace
      exact ⟨_, howner, (place?_eq_some_iff.1 hplace).2⟩
  | true =>
      obtain ⟨other, hsub, hother⟩ := (hused _).1 hfree
      exact ⟨other, hsub.subset List.mem_cons_self, (place?_eq_some_iff.1 hother).2⟩

theorem keyCandidate_eq (listMessage : String) : keyCandidate listMessage = listMessage ++ "Key" :=
  rfl

theorem isAllowed_of_mem_key : ∀ c ∈ "Key".toList, isAllowed c = true :=
  List.all_eq_true.1 (by decide)

theorem keyCandidate_ne_empty (listMessage : String) : keyCandidate listMessage ≠ "" := by
  rw [keyCandidate_eq]
  intro h
  have hchars := congrArg String.toList h
  simp at hchars

/-- A key wrapper has a name. -/
theorem InTurn.ne_empty_of_keys {list : Site} (h : registry.InTurn tree compress owners)
    (howner : Owner.keys list ∈ owners) (hname : registry.name? (.keys list) = some name) :
    name ≠ "" := by
  have hmade := h.madeFrom howner hname
  generalize hcandidate : registry.candidate (.keys list) = candidate at hmade
  have hne : candidate ≠ "" := hcandidate ▸ keyCandidate_ne_empty _
  cases hmade with
  | self => exact hne
  | numbered n =>
      intro hempty
      have hchars := congrArg String.toList hempty
      rw [toList_numbered] at hchars
      simp at hchars

/-!
## Shared enums
-/

/-- The names of shared enums are made from what their first leaves ask for. Those candidates are
names of shared enums themselves, and no other names are taken. -/
structure EnumsMade (registry : Registry) : Prop where
  made : ∀ {name definition}, registry.sharedEnums.find? name = some definition →
    MadeFrom (definition.type.enumCandidate definition.sourcePath) name
  candidates : ∀ {name definition}, registry.sharedEnums.find? name = some definition →
    registry.sharedEnums.contains (definition.type.enumCandidate definition.sourcePath) = true
  taken : ∀ {name}, registry.enumScope.contains name = true →
    registry.sharedEnums.contains name = true

theorem EnumsMade.of_same (h : registry.EnumsMade) (hsame : registry.SameEnums after) :
    after.EnumsMade := by
  obtain ⟨_, hdefinitions, hscope⟩ := hsame
  refine ⟨?_, ?_, ?_⟩
  · rw [hdefinitions]
    exact h.made
  · rw [hdefinitions]
    exact h.candidates
  · rw [hdefinitions, hscope]
    exact h.taken

theorem EnumsMade.sharedEnumName (h : registry.EnumsMade) (leafPath : String) (type : LeafType) :
    (sharedEnumName leafPath type registry).2.EnumsMade := by
  rw [Registry.sharedEnumName]
  cases hfind : registry.enumNames.find? (type.enumKey leafPath) with
  | some name => exact h
  | none =>
      dsimp only
      rw [NameSet.claim_eq]
      have hmade := registry.enumScope.madeFrom_firstFree (type.enumCandidate leafPath)
      have hcandidate : (registry.sharedEnums.insert
          (registry.enumScope.firstFree (type.enumCandidate leafPath))
          ⟨registry.enumScope.firstFree (type.enumCandidate leafPath), leafPath, type⟩).contains
            (type.enumCandidate leafPath) = true := by
        rw [SortedMap.contains_insert, Bool.or_eq_true, decide_eq_true_iff]
        cases hused : registry.enumScope.contains (type.enumCandidate leafPath) with
        | false => exact Or.inl (NameSet.firstFree_of_free hused).symm
        | true => exact Or.inr (h.taken hused)
      generalize registry.enumScope.firstFree (type.enumCandidate leafPath) = given
        at hmade hcandidate
      have hkept : ∀ {name}, registry.sharedEnums.contains name = true →
          (registry.sharedEnums.insert given ⟨given, leafPath, type⟩).contains name = true :=
        fun hname => by rw [SortedMap.contains_insert, hname, Bool.or_true]
      refine ⟨fun {name definition} hdefinition => ?_, fun {name definition} hdefinition => ?_,
        fun {name} hname => ?_⟩
      · change (registry.sharedEnums.insert _ _).find? name = some definition at hdefinition
        rw [SortedMap.find?_insert] at hdefinition
        split at hdefinition
        · rename_i heq
          cases hdefinition
          rw [heq]
          exact hmade
        · exact h.made hdefinition
      · change (registry.sharedEnums.insert _ _).find? name = some definition at hdefinition
        rw [SortedMap.find?_insert] at hdefinition
        split at hdefinition
        · cases hdefinition
          exact hcandidate
        · exact hkept (h.candidates hdefinition)
      · change (registry.enumScope.add given).contains name = true at hname
        rw [NameSet.contains_add, Bool.or_eq_true, decide_eq_true_iff] at hname
        rcases hname with rfl | hname
        · exact (SortedMap.contains_iff _ _).2 ⟨_, SortedMap.find?_insert_self _ _ _⟩
        · exact hkept (h.taken hname)

theorem Grows.enumsMade {asks : Site → LeafType → Prop} (h : start.Grows asks after)
    (hstart : start.EnumsMade) : after.EnumsMade := by
  induction h with
  | refl => exact hstart
  | package _ compress site ih => exact ih.of_same (sameEnums_packageFor compress site _)
  | message _ compress site ih => exact ih.of_same (sameEnums_messageName compress site _)
  | keyMessage _ list listMessage package ih =>
      exact ih.of_same (sameEnums_keyMessageName list listMessage package _)
  | sharedEnum _ _ ih => exact ih.sharedEnumName _ _

theorem enumsMade_ready {config : Config} {set : DirectorySet}
    (h : ready config set = .ok registry) : registry.EnumsMade := by
  obtain ⟨named, hgrows, rfl⟩ := grows_ready h
  have hcold : (cold config).EnumsMade := ⟨(nomatch ·), (nomatch ·), (nomatch ·)⟩
  exact (hcold.of_same hgrows.sameEnums).of_same ⟨rfl, rfl, rfl⟩

end Registry

end YangToProto

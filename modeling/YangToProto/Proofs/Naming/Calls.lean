import Mathlib.Data.List.Basic
import YangToProto.Proofs.Naming.PackageSharing
import YangToProto.Proofs.Naming.Serving

/-!
# Calls of a registry

The four naming operations may be called in any order, from a fresh registry with any packages
reserved (`Registry.fresh`). What they answer stands: later calls get the same answers
(`Registry.run_of_mem_answers`). After any calls different anchors have different packages, and
different keys of shared enums different names (`Registry.NamesApart.afterCalls`), so that the name
of a shared enum tells the identity of its type (`Registry.EnumsApart.name_eq_iff`).
-/

namespace YangToProto

/-!
## Identities of types
-/

/-- What a shared enum is made for. -/
inductive TypeIdentity where
  | typedef (name : String)
  /-- An identity base of a module; the name is empty if the base is of no particular module. -/
  | identity (module base : String)
  /-- The enumerated union of a leaf. -/
  | union (leafPath : String)
deriving DecidableEq

def TypeIdentity.key : TypeIdentity → String
  | typedef name => "typedef:" ++ name
  | identity module base => "identity:" ++ module ++ ":" ++ base
  | union leafPath => "union:" ++ leafPath

/-- The identifiers of a base hold none of the colons that separate them in a key. -/
def TypeIdentity.ColonFree : TypeIdentity → Prop
  | typedef _ => True
  | identity module base => ':' ∉ module.toList ∧ ':' ∉ base.toList
  | union _ => True

def LeafType.identity (type : LeafType) (leafPath : String) : TypeIdentity :=
  match type.kind with
  | .identityref base => .identity (base.module.getD "") base.name
  | .union _ => .union leafPath
  | _ => .typedef type.name

theorem LeafType.enumKey_eq (type : LeafType) (leafPath : String) :
    type.enumKey leafPath = (type.identity leafPath).key := by
  rw [enumKey, identity]
  cases type.kind <;> rfl

/-- It is enough that one of the two keys holds no more colons than it must. -/
theorem TypeIdentity.key_injective {one other : TypeIdentity} (hone : one.ColonFree)
    (h : one.key = other.key) : one = other := by
  have hlist := congrArg String.toList h
  cases one with
  | typedef name =>
      cases other with
      | typedef name' => rw [(String.append_right_inj _).1 h]
      | identity module base | union leafPath => simp [key] at hlist
  | identity module base =>
      cases other with
      | identity module' base' =>
          have hparts : module.toList ++ ':' :: base.toList =
              module'.toList ++ ':' :: base'.toList := by simpa [key] using hlist
          obtain ⟨hmodule, _, hbase⟩ :=
            (List.append_cons_inj_of_notMem hone.1 hone.2).1 hparts
          rw [String.toList_injective hmodule, String.toList_injective hbase]
      | typedef name | union leafPath => simp [key] at hlist
  | union leafPath =>
      cases other with
      | union leafPath' => rw [(String.append_right_inj _).1 h]
      | typedef name | identity module base => simp [key] at hlist

namespace Registry

/-!
## Calls
-/

inductive Call where
  | package (site : Site)
  | message (site : Site)
  | keyMessage (list : Site) (listMessage home : String)
  | sharedEnum (leafPath : String) (type : LeafType)

namespace Call

def site? : Call → Option Site
  | package site => some site
  | message site => some site
  | keyMessage list _ _ => some list
  | sharedEnum _ _ => none

def run (compress : Bool) : Call → Naming String
  | package site => liftM (packageFor compress site)
  | message site => messageName compress site
  | keyMessage list listMessage home => keyMessageName list listMessage home
  | sharedEnum leafPath type => liftM (sharedEnumName leafPath type)

end Call

def afterCalls (compress : Bool) : List Call → Registry → Registry
  | [], registry => registry
  | call :: rest, registry => afterCalls compress rest (call.run compress registry).2

def answers (compress : Bool) :
    List Call → Registry → List (Call × Except GenerationError String)
  | [], _ => []
  | call :: rest, registry =>
    (call, (call.run compress registry).1) :: answers compress rest (call.run compress registry).2

variable {compress : Bool} {registry middle later : Registry} {call : Call} {calls : List Call}
  {name package : String} {reserved : List String}

/-!
## Answers stand
-/

theorem keptBy_run (compress : Bool) (call : Call) (registry : Registry) :
    registry.KeptBy (call.run compress registry).2 := by
  cases call with
  | package site =>
      cases hrun : packageFor compress site registry with
      | mk package after =>
          rw [Call.run, lift_state_apply, hrun]
          exact (keptBy_packageFor hrun).1
  | message site =>
      have hgrows : registry.Grows Site.anyLeaf (messageName compress site registry).2 :=
        Grows.refl.message compress site
      exact hgrows.keptBy
  | keyMessage list listMessage home =>
      have hgrows : registry.Grows Site.anyLeaf
          (keyMessageName list listMessage home registry).2 :=
        Grows.refl.keyMessage list listMessage home
      exact hgrows.keptBy
  | sharedEnum leafPath type =>
      cases hrun : sharedEnumName leafPath type registry with
      | mk name after =>
          rw [Call.run, lift_state_apply, hrun]
          exact (keptBy_sharedEnumName hrun).1

theorem keptBy_afterCalls (compress : Bool) (calls : List Call) (registry : Registry) :
    registry.KeptBy (afterCalls compress calls registry) := by
  induction calls generalizing registry with
  | nil => exact .refl registry
  | cons call rest ih => exact (keptBy_run compress call registry).trans (ih _)

/-- A call that has been answered gets the same answer in every later registry. -/
theorem run_again (hrun : call.run compress registry = (.ok name, middle))
    (hkept : middle.KeptBy later) : call.run compress later = (.ok name, later) := by
  cases call with
  | package site =>
      have hfound := (keptBy_packageFor (lift_state_eq_ok hrun)).2
      rw [Call.run, lift_state_apply, packageFor_of_find? (hkept.packages _ _ hfound)]
  | message site =>
      exact messageName_of_find? (hkept.messages _ _ (keptBy_messageName hrun).2)
  | keyMessage list listMessage home =>
      exact keyMessageName_of_find? (hkept.keyMessages _ _ (keptBy_keyMessageName hrun).2)
  | sharedEnum leafPath type =>
      have hfound := (keptBy_sharedEnumName (lift_state_eq_ok hrun)).2
      rw [Call.run, lift_state_apply, sharedEnumName_of_find? (hkept.enumNames _ _ hfound)]

theorem run_of_mem_answers (h : (call, .ok name) ∈ answers compress calls registry) :
    call.run compress (afterCalls compress calls registry) =
      (.ok name, afterCalls compress calls registry) := by
  induction calls generalizing registry with
  | nil => cases h
  | cons first rest ih =>
      rcases List.mem_cons.1 h with h | h
      · obtain ⟨rfl, hname⟩ := Prod.mk.inj h
        exact run_again (Prod.ext hname.symm rfl) (keptBy_afterCalls compress rest _)
      · exact ih h

theorem mem_of_mem_answers {answer : Except GenerationError String}
    (h : (call, answer) ∈ answers compress calls registry) : call ∈ calls := by
  induction calls generalizing registry with
  | nil => cases h
  | cons first rest ih =>
      rcases List.mem_cons.1 h with h | h
      · exact (Prod.mk.inj h).1 ▸ List.mem_cons_self
      · exact List.mem_cons_of_mem _ (ih h)

/-- While the registry is not frozen, every call is answered. -/
theorem exists_run (hfrozen : registry.frozen = false) (compress : Bool) (call : Call) :
    ∃ name after, call.run compress registry = (.ok name, after) ∧ after.frozen = false := by
  cases call with
  | package site => exact ⟨_, _, rfl, (frozen_packageFor compress site registry).trans hfrozen⟩
  | message site => exact exists_messageName hfrozen compress site
  | keyMessage list listMessage home => exact exists_keyMessageName hfrozen list _ _
  | sharedEnum leafPath type =>
      refine ⟨_, (sharedEnumName leafPath type registry).2, rfl, ?_⟩
      rw [sharedEnumName]
      split
      · exact hfrozen
      · exact hfrozen

theorem exists_of_mem_answers (hfrozen : registry.frozen = false)
    {answer : Call × Except GenerationError String}
    (h : answer ∈ answers compress calls registry) : ∃ name, answer.2 = .ok name := by
  induction calls generalizing registry with
  | nil => cases h
  | cons first rest ih =>
      obtain ⟨name, after, hrun, hafter⟩ := exists_run hfrozen compress first
      rw [answers, hrun] at h
      rcases List.mem_cons.1 h with rfl | h
      · exact ⟨name, rfl⟩
      · exact ih hafter h

/-!
## Packages and shared enums
-/

/-- Different keys of shared enums have different names. -/
structure EnumsApart (registry : Registry) : Prop where
  injective : ∀ {key other name}, registry.enumNames.find? key = some name →
    registry.enumNames.find? other = some name → key = other
  taken : ∀ {key name}, registry.enumNames.find? key = some name →
    registry.enumScope.contains name = true

theorem EnumsApart.of_same (h : registry.EnumsApart) (hsame : registry.SameEnums middle) :
    middle.EnumsApart := by
  constructor
  · rw [hsame.names]
    exact h.injective
  · rw [hsame.names, hsame.scope]
    exact h.taken

theorem EnumsApart.withEnum (h : registry.EnumsApart) (key : String) {definition : SharedEnum}
    (hfree : registry.enumScope.contains definition.name = false) (count : Nat) :
    (registry.withEnum key definition count).EnumsApart := by
  have hne : ∀ other found, registry.enumNames.find? other = some found →
      found ≠ definition.name := by
    rintro other found hfound rfl
    rw [h.taken hfound] at hfree
    cases hfree
  constructor
  · intro one two found hone htwo
    rw [Registry.withEnum, SortedMap.find?_insert] at hone htwo
    split at hone
    · rename_i hkey
      cases hone
      split at htwo
      · rename_i hkey'
        rw [hkey, hkey']
      · exact absurd rfl (hne _ _ htwo)
    · split at htwo
      · cases htwo
        exact absurd rfl (hne _ _ hone)
      · exact h.injective hone htwo
  · intro other found hfound
    rw [Registry.withEnum, SortedMap.find?_insert] at hfound
    rw [Registry.withEnum, NameSet.contains_add]
    split at hfound
    · cases hfound
      simp
    · rw [h.taken hfound, Bool.or_true]

/-- Different anchors have different packages, and different keys of shared enums different
names. -/
structure NamesApart (reserved : List String) (registry : Registry) : Prop where
  packages : registry.PackagesApart reserved
  enums : registry.EnumsApart

theorem PackagesApart.messageName (h : registry.PackagesApart reserved) (compress : Bool)
    (site : Site) : (messageName compress site registry).2.PackagesApart reserved :=
  messageName_keeps h (·.packageFor compress site) fun package name count hmiddle =>
    hmiddle.withName (.directory site) package name count

theorem PackagesApart.keyMessageName (h : registry.PackagesApart reserved) (list : Site)
    (listMessage home : String) :
    (keyMessageName list listMessage home registry).2.PackagesApart reserved :=
  keyMessageName_keeps h fun name count hkept => hkept.withName (.keys list) home name count

theorem NamesApart.run (h : registry.NamesApart reserved) (compress : Bool) (call : Call) :
    (call.run compress registry).2.NamesApart reserved := by
  cases call with
  | package site =>
      exact ⟨h.packages.packageFor compress site,
        h.enums.of_same (sameEnums_packageFor compress site registry)⟩
  | message site =>
      exact ⟨h.packages.messageName compress site,
        h.enums.of_same (sameEnums_messageName compress site registry)⟩
  | keyMessage list listMessage home =>
      exact ⟨h.packages.keyMessageName list listMessage home,
        h.enums.of_same (sameEnums_keyMessageName list listMessage home registry)⟩
  | sharedEnum leafPath type =>
      rw [Call.run, lift_state_apply]
      cases hrun : sharedEnumName leafPath type registry with
      | mk name after =>
          rcases sharedEnumName_cases hrun with ⟨_, rfl⟩ | ⟨_, hfree, count, rfl⟩
          · exact h
          · exact ⟨h.packages.of_same rfl rfl, h.enums.withEnum _ hfree count⟩

theorem NamesApart.afterCalls (h : registry.NamesApart reserved) (compress : Bool)
    (calls : List Call) : (afterCalls compress calls registry).NamesApart reserved := by
  induction calls generalizing registry with
  | nil => exact h
  | cons call rest ih => exact ih (h.run compress call)

theorem namesApart_fresh (basePackage : String) (reserved : List String) :
    (fresh basePackage reserved).NamesApart reserved := by
  refine ⟨packagesApart_fresh basePackage reserved, ?_⟩
  rw [fresh, foldl_reserve_eq]
  constructor
  · intro key other name hfound
    cases hfound
  · intro key name hfound
    cases hfound

/-- Shared enums have one name exactly if their types have one identity. -/
theorem EnumsApart.name_eq_iff (h : registry.EnumsApart) {leafPath leafPath' name' : String}
    {type type' : LeafType} (hcolon : (type.identity leafPath).ColonFree)
    (hfound : registry.enumNames.find? (type.enumKey leafPath) = some name)
    (hfound' : registry.enumNames.find? (type'.enumKey leafPath') = some name') :
    name = name' ↔ type.identity leafPath = type'.identity leafPath' := by
  rw [LeafType.enumKey_eq] at hfound hfound'
  constructor
  · rintro rfl
    exact TypeIdentity.key_injective hcolon (h.injective hfound hfound')
  · intro hsame
    rw [hsame, hfound'] at hfound
    exact (Option.some.inj hfound).symm

end Registry

end YangToProto

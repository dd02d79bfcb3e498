import YangToProto.Proofs.Naming.Owners
import YangToProto.Proofs.Proto.FreeNames
import YangToProto.Proofs.Running

/-!
# Naming step by step

For each of the four naming operations the list of everything that it can do when it succeeds
(`packageFor_cases`, `messageName_cases`, `keyMessageName_cases`, `sharedEnumName_cases`): answer
from memory, or claim a free name and record it. No later proof opens an operation itself. Messages
of directories and key wrappers are recorded apart and in the same manner (`Registry.withName`).
-/

namespace YangToProto

theorem drafting_eq_ok {α : Type} {step : Naming α} {registry after : Registry} {value : α}
    (h : step.drafting registry = (.ok value, after)) : step registry = (.ok value, after) := by
  change ((step registry).1.mapError fun error => [error], (step registry).2) = _ at h
  cases hstep : step registry with
  | mk outcome ended =>
      rw [hstep] at h
      cases outcome with
      | ok found =>
          cases h
          rfl
      | error fault => cases h

namespace Registry

def name? (registry : Registry) : Owner → Option String
  | .directory site => registry.messages.find? site.pathText
  | .keys list => registry.keyMessages.find? list.pathText

def withPackage (registry : Registry) (anchor : Anchor) (package : String) (count : Nat) :
    Registry :=
  { registry with
    packages := registry.packages.insert anchor package
    usedPackages := registry.usedPackages.add package
    disambiguated := count }

def withTaken (registry : Registry) (package name : String) (count : Nat) : Registry :=
  { registry with
    packageScopes := registry.packageScopes.insert package
      (((registry.packageScopes.find? package).getD ∅).add name)
    disambiguated := count }

/-- The registry with a message given a name in a package. -/
def withName (registry : Registry) (owner : Owner) (package name : String) (count : Nat) :
    Registry :=
  match owner with
  | .directory site =>
    { registry.withTaken package name count with
      messages := registry.messages.insert site.pathText name }
  | .keys list =>
    { registry.withTaken package name count with
      keyMessages := registry.keyMessages.insert list.pathText name }

def withEnum (registry : Registry) (key : String) (definition : SharedEnum) (count : Nat) :
    Registry :=
  { registry with
    enumScope := registry.enumScope.add definition.name
    disambiguated := count
    enumNames := registry.enumNames.insert key definition.name
    sharedEnums := registry.sharedEnums.insert definition.name definition }

def isTaken (registry : Registry) (package name : String) : Bool :=
  ((registry.packageScopes.find? package).getD ∅).contains name

theorem isTaken_withName (registry : Registry) (owner : Owner) (package name : String)
    (count : Nat) (other wanted : String) :
    (registry.withName owner package name count).isTaken other wanted =
      (decide (other = package ∧ wanted = name) || registry.isTaken other wanted) := by
  have hscopes : (registry.withName owner package name count).packageScopes =
      (registry.withTaken package name count).packageScopes := by
    cases owner <;> rfl
  rw [isTaken, hscopes, withTaken, SortedMap.find?_insert, isTaken]
  by_cases h : other = package
  · rw [if_pos h, Option.getD_some, NameSet.contains_add, h]
    simp
  · simp [h]

variable {registry after : Registry} {compress : Bool} {site list : Site}

theorem packageFor_eq (compress : Bool) (site : Site) (registry : Registry) :
    packageFor compress site registry =
      match registry.packages.find? (site.anchor compress) with
      | some package => (package, registry)
      | none =>
        let candidate := site.packageCandidate compress registry.basePackage
        let package := registry.usedPackages.firstFree candidate
        (package, registry.withPackage (site.anchor compress) package
          (countIfChanged registry.disambiguated candidate package)) := by
  rw [packageFor]
  simp only [NameSet.claim_eq]
  rfl

theorem claimInPackage_eq (package candidate : String) (registry : Registry) :
    claimInPackage package candidate registry =
      let name := NameSet.firstFree ((registry.packageScopes.find? package).getD ∅) candidate
      (name, registry.withTaken package name
        (countIfChanged registry.disambiguated candidate name)) := by
  simp only [claimInPackage, NameSet.claim_eq]
  rfl

theorem sharedEnumName_eq (leafPath : String) (type : LeafType) (registry : Registry) :
    sharedEnumName leafPath type registry =
      match registry.enumNames.find? (type.enumKey leafPath) with
      | some name => (name, registry)
      | none =>
        let name := registry.enumScope.firstFree (type.enumCandidate leafPath)
        (name, registry.withEnum (type.enumKey leafPath) ⟨name, leafPath, type⟩
          (countIfChanged registry.disambiguated (type.enumCandidate leafPath) name)) := by
  rw [sharedEnumName]
  simp only [NameSet.claim_eq]
  rfl

theorem packageFor_cases {package : String}
    (h : packageFor compress site registry = (package, after)) :
    (registry.packages.find? (site.anchor compress) = some package ∧ after = registry) ∨
    (registry.packages.find? (site.anchor compress) = none ∧
      registry.usedPackages.contains package = false ∧
      ∃ count, after = registry.withPackage (site.anchor compress) package count) := by
  rw [packageFor_eq] at h
  cases hfind : registry.packages.find? (site.anchor compress) with
  | some known =>
      rw [hfind] at h
      cases h
      exact Or.inl ⟨rfl, rfl⟩
  | none =>
      rw [hfind] at h
      cases h
      exact Or.inr ⟨rfl, NameSet.contains_firstFree _ _, _, rfl⟩

theorem messageName_eq (compress : Bool) (site : Site) (registry : Registry) :
    messageName compress site registry =
      match registry.messages.find? site.pathText with
      | some name => (.ok name, registry)
      | none =>
        if registry.frozen then
          (.error (.nameResolution site.pathText
            "no message name was assigned before generation"), registry)
        else
          let found := packageFor compress site registry
          let candidate := Identifier.pascalCase site.name
          let name := NameSet.firstFree ((found.2.packageScopes.find? found.1).getD ∅) candidate
          (.ok name, found.2.withName (.directory site) found.1 name
            (countIfChanged found.2.disambiguated candidate name)) := by
  rw [messageName, bind_apply]
  change (match registry.messages.find? site.pathText with
    | some name => _
    | none => _ : Naming String) registry = _
  cases hfind : registry.messages.find? site.pathText with
  | some name => rfl
  | none =>
      cases hfrozen : registry.frozen with
      | true => rfl
      | false =>
          change (let found := packageFor compress site registry
            let claimed := claimInPackage found.1 (Identifier.pascalCase site.name) found.2
            (Except.ok claimed.1,
              { claimed.2 with messages := claimed.2.messages.insert site.pathText claimed.1 })) = _
          simp only [claimInPackage_eq]
          rfl

theorem keyMessageName_eq (list : Site) (listMessage package : String) (registry : Registry) :
    keyMessageName list listMessage package registry =
      match registry.keyMessages.find? list.pathText with
      | some name => (.ok name, registry)
      | none =>
        if registry.frozen then
          (.error (.nameResolution list.pathText
            "no key message name was assigned before generation"), registry)
        else
          let candidate := s!"{listMessage}Key"
          let name := NameSet.firstFree ((registry.packageScopes.find? package).getD ∅) candidate
          (.ok name, registry.withName (.keys list) package name
            (countIfChanged registry.disambiguated candidate name)) := by
  rw [keyMessageName, bind_apply]
  change (match registry.keyMessages.find? list.pathText with
    | some name => _
    | none => _ : Naming String) registry = _
  cases hfind : registry.keyMessages.find? list.pathText with
  | some name => rfl
  | none =>
      cases hfrozen : registry.frozen with
      | true => rfl
      | false =>
          change (let claimed := claimInPackage package s!"{listMessage}Key" registry
            (Except.ok claimed.1,
              { claimed.2 with
                keyMessages := claimed.2.keyMessages.insert list.pathText claimed.1 })) = _
          simp only [claimInPackage_eq]
          rfl

/-- A message name is answered from memory, or it is free in the package of the site. -/
theorem messageName_cases {name : String}
    (h : messageName compress site registry = (.ok name, after)) :
    (registry.messages.find? site.pathText = some name ∧ after = registry) ∨
    (registry.messages.find? site.pathText = none ∧ ∃ package middle count,
      packageFor compress site registry = (package, middle) ∧
      middle.isTaken package name = false ∧
      after = middle.withName (.directory site) package name count) := by
  rw [messageName_eq] at h
  cases hfind : registry.messages.find? site.pathText with
  | some known =>
      rw [hfind] at h
      cases h
      exact Or.inl ⟨rfl, rfl⟩
  | none =>
      rw [hfind] at h
      cases hfrozen : registry.frozen with
      | true =>
          rw [hfrozen] at h
          cases h
      | false =>
          rw [hfrozen] at h
          cases h
          exact Or.inr ⟨rfl, _, _, _, rfl, NameSet.contains_firstFree _ _, rfl⟩

/-- The name of a key wrapper is answered from memory, or it is free in the given package. -/
theorem keyMessageName_cases {listMessage package name : String}
    (h : keyMessageName list listMessage package registry = (.ok name, after)) :
    (registry.keyMessages.find? list.pathText = some name ∧ after = registry) ∨
    (registry.keyMessages.find? list.pathText = none ∧
      registry.isTaken package name = false ∧
      ∃ count, after = registry.withName (.keys list) package name count) := by
  rw [keyMessageName_eq] at h
  cases hfind : registry.keyMessages.find? list.pathText with
  | some known =>
      rw [hfind] at h
      cases h
      exact Or.inl ⟨rfl, rfl⟩
  | none =>
      rw [hfind] at h
      cases hfrozen : registry.frozen with
      | true =>
          rw [hfrozen] at h
          cases h
      | false =>
          rw [hfrozen] at h
          cases h
          exact Or.inr ⟨rfl, NameSet.contains_firstFree _ _, _, rfl⟩

theorem sharedEnumName_cases {leafPath name : String} {type : LeafType}
    (h : sharedEnumName leafPath type registry = (name, after)) :
    (registry.enumNames.find? (type.enumKey leafPath) = some name ∧ after = registry) ∨
    (registry.enumNames.find? (type.enumKey leafPath) = none ∧
      registry.enumScope.contains name = false ∧
      ∃ count, after =
        registry.withEnum (type.enumKey leafPath) ⟨name, leafPath, type⟩ count) := by
  rw [sharedEnumName_eq] at h
  cases hfind : registry.enumNames.find? (type.enumKey leafPath) with
  | some known =>
      rw [hfind] at h
      cases h
      exact Or.inl ⟨rfl, rfl⟩
  | none =>
      rw [hfind] at h
      cases h
      exact Or.inr ⟨rfl, NameSet.contains_firstFree _ _, _, rfl⟩

end Registry

end YangToProto

import YangToProto.Proofs.Naming.InTurn
import YangToProto.Proofs.Naming.PackageSharing
import YangToProto.Proofs.Naming.Serving
import YangToProto.Proofs.Naming.SideBySide

/-!
# Packages under other names

Registries that start from different base packages, or keep different packages free, call their
packages differently. Yet each anchor has a package in one of them exactly if it has one in the
other, and those two hold the same message names, as long as different anchors have different
packages (`Registry.Twins`). So both give a message the same name, and naming everything in advance
gives the same names under every configuration that compresses paths alike
(`Registry.messages_eq_of_ready`).
-/

namespace YangToProto

namespace Registry

variable {compress : Bool} {reserved reserved' : List String}
  {registry other middle middle' : Registry} {anchor : Anchor} {package package' name : String}

theorem scope_withName (registry : Registry) (owner : Owner) (package name : String) (count : Nat)
    (home : String) :
    (registry.withName owner package name count).scope home =
      if home = package then (registry.scope package).add name else registry.scope home := by
  have hscopes : (registry.withName owner package name count).packageScopes =
      (registry.withTaken package name count).packageScopes := by
    cases owner <;> rfl
  rw [scope, hscopes, withTaken, SortedMap.find?_insert]
  split
  · rfl
  · rfl

theorem packages_withName (registry : Registry) (owner : Owner) (package name : String)
    (count : Nat) :
    (registry.withName owner package name count).packages = registry.packages ∧
      (registry.withName owner package name count).usedPackages = registry.usedPackages ∧
      (registry.withName owner package name count).frozen = registry.frozen := by
  cases owner with
  | directory site => exact ⟨rfl, rfl, rfl⟩
  | keys list => exact ⟨rfl, rfl, rfl⟩

/-- Packages are apart, no names are taken in a package that is not used, and names can still be
given. -/
structure Giving (reserved : List String) (registry : Registry) : Prop
    extends PackagesApart reserved registry where
  unused : ∀ {package}, registry.usedPackages.contains package = false →
    registry.scope package = ∅
  frozen : registry.frozen = false

theorem Giving.withPackage (h : registry.Giving reserved) (anchor : Anchor)
    (hfree : registry.usedPackages.contains package = false) (count : Nat) :
    (registry.withPackage anchor package count).Giving reserved := by
  refine ⟨h.toPackagesApart.withPackage anchor hfree count, fun {home} hunused => ?_, h.frozen⟩
  rw [Registry.withPackage, NameSet.contains_add, Bool.or_eq_false_iff] at hunused
  exact h.unused hunused.2

theorem Giving.withName (h : registry.Giving reserved)
    (hpackage : registry.packages.find? anchor = some package) (owner : Owner) (name : String)
    (count : Nat) : (registry.withName owner package name count).Giving reserved := by
  obtain ⟨_, hused, hfrozen⟩ := packages_withName registry owner package name count
  refine ⟨h.toPackagesApart.withName owner package name count, fun {home} hunused => ?_,
    hfrozen.trans h.frozen⟩
  rw [hused] at hunused
  have hne : home ≠ package := by
    rintro rfl
    rw [h.used hpackage] at hunused
    cases hunused
  rw [scope_withName, if_neg hne]
  exact h.unused hunused

/-- The same messages and key wrappers have names, the same ones. Anchors have packages in both
registries or in neither, and in the two packages the same names are taken. -/
structure Twins (reserved reserved' : List String) (registry other : Registry) : Prop where
  giving : registry.Giving reserved
  giving' : other.Giving reserved'
  known : ∀ anchor, other.packages.contains anchor = registry.packages.contains anchor
  scopes : ∀ {anchor package package'}, registry.packages.find? anchor = some package →
    other.packages.find? anchor = some package' → other.scope package' = registry.scope package
  messages : other.messages = registry.messages
  keyMessages : other.keyMessages = registry.keyMessages

theorem Twins.withPackage (h : registry.Twins reserved reserved' other) (anchor : Anchor)
    (hfree : registry.usedPackages.contains package = false)
    (hfree' : other.usedPackages.contains package' = false) (count count' : Nat) :
    (registry.withPackage anchor package count).Twins reserved reserved'
      (other.withPackage anchor package' count') := by
  refine ⟨h.giving.withPackage anchor hfree count, h.giving'.withPackage anchor hfree' count',
    fun one => ?_, fun {one home home'} hone hone' => ?_, h.messages, h.keyMessages⟩
  · simp only [Registry.withPackage, SortedMap.contains_insert, h.known one]
  · rw [Registry.withPackage, SortedMap.find?_insert] at hone hone'
    change other.scope home' = registry.scope home
    by_cases heq : one = anchor
    · rw [if_pos heq] at hone hone'
      cases hone
      cases hone'
      rw [h.giving.unused hfree, h.giving'.unused hfree']
    · rw [if_neg heq] at hone hone'
      exact h.scopes hone hone'

theorem Twins.withName (h : registry.Twins reserved reserved' other)
    (hpackage : registry.packages.find? anchor = some package)
    (hpackage' : other.packages.find? anchor = some package') (owner : Owner) (name : String)
    (count count' : Nat) :
    (registry.withName owner package name count).Twins reserved reserved'
      (other.withName owner package' name count') := by
  have hsame := (packages_withName registry owner package name count).1
  have hsame' := (packages_withName other owner package' name count').1
  refine ⟨h.giving.withName hpackage owner name count,
    h.giving'.withName hpackage' owner name count',
    fun one => ?_, fun {one home home'} hone hone' => ?_, ?_, ?_⟩
  · rw [hsame, hsame', h.known]
  · rw [hsame] at hone
    rw [hsame'] at hone'
    rw [scope_withName, scope_withName]
    by_cases heq : one = anchor
    · subst heq
      obtain rfl := Option.some.inj (hpackage.symm.trans hone)
      obtain rfl := Option.some.inj (hpackage'.symm.trans hone')
      rw [if_pos rfl, if_pos rfl, h.scopes hpackage hpackage']
    · -- the package of another anchor is another package, in both registries
      have hne : home ≠ package := fun hhome =>
        heq (h.giving.injective (hhome ▸ hone) hpackage)
      have hne' : home' ≠ package' := fun hhome =>
        heq (h.giving'.injective (hhome ▸ hone') hpackage')
      rw [if_neg hne, if_neg hne', h.scopes hone hone']
  · cases owner with
    | directory site => exact congrArg (·.insert site.pathText name) h.messages
    | keys list => exact h.messages
  · cases owner with
    | directory site => exact h.keyMessages
    | keys list => exact congrArg (·.insert list.pathText name) h.keyMessages

/-!
## The operations
-/

theorem Twins.packageFor (h : registry.Twins reserved reserved' other) (compress : Bool)
    (site : Site) :
    (packageFor compress site registry).2.Twins reserved reserved'
      (packageFor compress site other).2 := by
  have hknown := h.known (site.anchor compress)
  rw [SortedMap.contains, SortedMap.contains] at hknown
  cases hrun : Registry.packageFor compress site registry with
  | mk package after =>
      cases hrun' : Registry.packageFor compress site other with
      | mk package' after' =>
          rcases packageFor_cases hrun with ⟨hfind, rfl⟩ | ⟨hnone, hfree, count, rfl⟩
          · rcases packageFor_cases hrun' with ⟨_, rfl⟩ | ⟨hnone', _⟩
            · exact h
            · simp [hfind, hnone'] at hknown
          · rcases packageFor_cases hrun' with ⟨hfind', _⟩ | ⟨_, hfree', count', rfl⟩
            · simp [hnone, hfind'] at hknown
            · exact h.withPackage _ hfree hfree' count count'

theorem lockstep_messageName_twins (compress : Bool) (site : Site) :
    Lockstep (Twins reserved reserved') Eq (messageName compress site)
      (messageName compress site) where
  run := fun {registry other} h => by
    cases hfind : registry.messages.find? site.pathText with
    | some name =>
        rw [messageName_of_find? hfind, messageName_of_find? (h.messages ▸ hfind)]
        exact ⟨.ok rfl, h⟩
    | none =>
        obtain ⟨name, after, hrun, _⟩ := exists_messageName h.giving.frozen compress site
        obtain ⟨name', after', hrun', _⟩ := exists_messageName h.giving'.frozen compress site
        obtain ⟨package, middle, count, hpackage, hname, rfl⟩ := messageName_of_none hfind hrun
        obtain ⟨package', middle', count', hpackage', hname', rfl⟩ :=
          messageName_of_none (h.messages ▸ hfind) hrun'
        have hmiddle := h.packageFor compress site
        rw [hpackage, hpackage'] at hmiddle
        -- twin packages hold the same names, so the same candidate leads to the same name
        have hhome := (keptBy_packageFor hpackage).2
        have hhome' := (keptBy_packageFor hpackage').2
        rw [hmiddle.scopes hhome hhome', ← hname] at hname'
        subst hname'
        rw [hrun, hrun']
        exact ⟨.ok rfl, hmiddle.withName hhome hhome' (.directory site) _ _ _⟩

/-- The registries are twins, and the two packages are those of the anchor. -/
structure TwinsAt (reserved reserved' : List String) (anchor : Anchor) (package package' : String)
    (registry other : Registry) : Prop extends Twins reserved reserved' registry other where
  home : registry.packages.find? anchor = some package
  home' : other.packages.find? anchor = some package'

theorem lockstep_messageName_twinsAt (compress : Bool) (site : Site) :
    Lockstep (TwinsAt reserved reserved' anchor package package') Eq (messageName compress site)
      (messageName compress site) where
  run := fun {registry other} h => by
    obtain ⟨hname, htwins⟩ := (lockstep_messageName_twins compress site).run h.toTwins
    have hgrows : ∀ registry : Registry,
        registry.Grows Site.anyLeaf (messageName compress site registry).2 :=
      (steady_messageName compress site).grows
    exact ⟨hname, htwins, (hgrows registry).keptBy.packages _ _ h.home,
      (hgrows other).keptBy.packages _ _ h.home'⟩

theorem lockstep_keyMessageName_twinsAt (list : Site) (listMessage : String) :
    Lockstep (TwinsAt reserved reserved' anchor package package') Eq
      (keyMessageName list listMessage package) (keyMessageName list listMessage package') where
  run := fun {registry other} h => by
    cases hfind : registry.keyMessages.find? list.pathText with
    | some name =>
        rw [keyMessageName_of_find? hfind, keyMessageName_of_find? (h.keyMessages ▸ hfind)]
        exact ⟨.ok rfl, h⟩
    | none =>
        obtain ⟨name, after, hrun, _⟩ :=
          exists_keyMessageName h.giving.frozen list listMessage package
        obtain ⟨name', after', hrun', _⟩ :=
          exists_keyMessageName h.giving'.frozen list listMessage package'
        obtain ⟨hname, count, rfl⟩ := keyMessageName_of_none hfind hrun
        obtain ⟨hname', count', rfl⟩ := keyMessageName_of_none (h.keyMessages ▸ hfind) hrun'
        rw [h.scopes h.home h.home', ← hname] at hname'
        subst hname'
        rw [hrun, hrun']
        exact ⟨.ok rfl, h.toTwins.withName h.home h.home' (.keys list) _ _ _, h.home, h.home'⟩

/-!
## Naming in advance
-/

theorem lockstep_nameMessages_twins (compress : Bool) (directories : List Directory) :
    Lockstep (Twins reserved reserved') Eq (nameMessages compress directories)
      (nameMessages compress directories) := by
  induction directories with
  | nil => exact .pure rfl
  | cons directory rest ih =>
      exact .bind (lockstep_messageName_twins compress directory.site) fun _ _ _ => ih

theorem lockstep_nameKeysOf_twinsAt (compress : Bool) (fields : List Site) :
    Lockstep (TwinsAt reserved reserved' anchor package package') Eq
      (nameKeysOf compress package fields) (nameKeysOf compress package' fields) := by
  induction fields with
  | nil => exact .pure rfl
  | cons field rest ih =>
      rw [nameKeysOf, nameKeysOf]
      split
      · refine .bind (lockstep_messageName_twinsAt compress field) fun name _ hname => ?_
        subst hname
        exact .bind (lockstep_keyMessageName_twinsAt field name) fun _ _ _ => ih
      · exact ih

theorem lockstep_nameKeys_twins (compress : Bool) (directories : List Directory) :
    Lockstep (Twins reserved reserved') Eq (nameKeys compress directories)
      (nameKeys compress directories) := by
  induction directories with
  | nil => exact .pure rfl
  | cons directory rest ih =>
      refine ⟨fun {registry other} h => ?_⟩
      -- the packages differ, so the key wrappers are named in packages of one anchor
      have hmiddle := h.packageFor compress directory.site
      rw [nameKeys, bind_apply, bind_apply, lift_state_apply, lift_state_apply]
      cases hpackage : packageFor compress directory.site registry with
      | mk package middle =>
          cases hpackage' : packageFor compress directory.site other with
          | mk package' middle' =>
              rw [hpackage, hpackage'] at hmiddle
              have hat : middle.TwinsAt reserved reserved' (directory.site.anchor compress)
                  package package' middle' :=
                ⟨hmiddle, (keptBy_packageFor hpackage).2, (keptBy_packageFor hpackage').2⟩
              obtain ⟨houtcome, hafter⟩ :=
                (lockstep_nameKeysOf_twinsAt compress directory.fields.values).run hat
              dsimp only
              rw [bind_apply, bind_apply]
              cases hrun : nameKeysOf compress package directory.fields.values middle with
              | mk outcome after =>
                  cases hrun' : nameKeysOf compress package' directory.fields.values middle' with
                  | mk outcome' after' =>
                      rw [hrun, hrun'] at houtcome hafter
                      cases houtcome with
                      | ok _ => exact ih.run hafter.toTwins
                      | error fault => exact ⟨.error fault, hafter.toTwins⟩

theorem twins_cold (config other : Config) :
    (cold config).Twins [config.enumPackage] [other.enumPackage] (cold other) where
  giving := ⟨packagesApart_fresh config.basePackage [config.enumPackage], fun _ => rfl, rfl⟩
  giving' := ⟨packagesApart_fresh other.basePackage [other.enumPackage], fun _ => rfl, rfl⟩
  known := fun _ => rfl
  scopes := fun h => nomatch h
  messages := rfl
  keyMessages := rfl

/-- Naming in advance gives the same names, whatever the packages are called. -/
theorem messages_eq_of_ready {config config' : Config} {set : DirectorySet}
    (hcompress : config'.compressPaths = config.compressPaths)
    (hready : ready config set = .ok registry) (hready' : ready config' set = .ok other) :
    other.messages = registry.messages ∧ other.keyMessages = registry.keyMessages := by
  have hnaming : Lockstep (Twins [config.enumPackage] [config'.enumPackage]) Eq (do
      nameMessages config.compressPaths set.directories
      nameKeys config.compressPaths set.directories) (do
      nameMessages config.compressPaths set.directories
      nameKeys config.compressPaths set.directories) :=
    .bind (lockstep_nameMessages_twins _ _) fun _ _ _ => lockstep_nameKeys_twins _ _
  obtain ⟨_, hafter⟩ := hnaming.run (twins_cold config config')
  rw [ready, prepopulate] at hready hready'
  rw [hcompress] at hready'
  split at hready
  · rename_i named hrun
    cases hready
    split at hready'
    · rename_i named' hrun'
      cases hready'
      rw [hrun, hrun'] at hafter
      exact ⟨hafter.messages, hafter.keyMessages⟩
    · cases hready'
  · cases hready

end Registry

end YangToProto

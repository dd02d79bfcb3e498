import Mathlib.Data.List.Induction
import Mathlib.Data.List.Nodup
import YangToProto.Proofs.Naming.Memory
import YangToProto.Proofs.Naming.Places

/-!
# Names given in turn

While a registry is not frozen, it gives names to owners one after the other, and each gets the
first free name for its candidate among those that come before it in its package
(`Registry.InTurn`). So two registries that name owners in different orders give an owner the same
name, unless one of them has given that name to another owner before (`Registry.InTurn.place?_eq`).
-/

namespace YangToProto

section Pairs

variable {α : Type} {front back : List α} {one other last : α}

theorem pair_sublist_append_iff (h : other ∉ back) :
    [one, other].Sublist (front ++ back) ↔ [one, other].Sublist front := by
  constructor
  · intro hsub
    obtain ⟨left, right, hsplit, hleft, hright⟩ := List.sublist_append_iff.1 hsub
    rcases List.eq_nil_or_concat right with rfl | ⟨rest, x, rfl⟩
    · rw [List.append_nil] at hsplit
      exact hsplit ▸ hleft
    · -- the last of the pair would be in the second list
      rw [List.concat_eq_append, ← List.append_assoc] at hsplit
      have hpair : [one] ++ [other] = (left ++ rest) ++ [x] := hsplit
      obtain ⟨_, hlast⟩ := List.append_inj' hpair rfl
      obtain rfl := (List.cons.inj hlast).1
      exact absurd (hright.subset (by simp)) h
  · intro hsub
    exact hsub.trans (List.sublist_append_left _ _)

theorem pair_sublist_append_self_iff :
    [one, last].Sublist (front ++ [last]) ↔ one ∈ front := by
  constructor
  · intro hsub
    obtain ⟨left, right, hsplit, hleft, hright⟩ := List.sublist_append_iff.1 hsub
    cases left with
    | nil =>
        rw [List.nil_append] at hsplit
        subst hsplit
        exact absurd hright.length_le (by simp)
    | cons head rest =>
        obtain ⟨rfl, _⟩ := List.cons.inj hsplit
        exact hleft.subset List.mem_cons_self
  · intro hmem
    exact (List.singleton_sublist.2 hmem).append (List.Sublist.refl [last])

theorem not_pair_sublist_of_nodup (hnodup : front.Nodup) : ¬ [one, one].Sublist front := fun hsub =>
  List.not_nodup_pair one (hnodup.sublist hsub)

/-- What holds of a member as soon as it holds of those before it holds of all members. -/
theorem forall_of_forall_before {list : List α} (hnodup : list.Nodup) {P : α → Prop}
    (h : ∀ last ∈ list, (∀ one, [one, last].Sublist list → P one) → P last) :
    ∀ one ∈ list, P one := by
  induction list using List.reverseRecOn with
  | nil => exact fun _ hmem => absurd hmem List.not_mem_nil
  | append_singleton front last ih =>
      obtain ⟨hfront, _, hnew⟩ := List.nodup_append.1 hnodup
      have hfronts : ∀ one ∈ front, P one := by
        refine ih hfront fun other ho hall => h other (List.mem_append_left _ ho) fun one hone => ?_
        have hne : other ∉ [last] := fun hlast => hnew other ho other hlast rfl
        exact hall one ((pair_sublist_append_iff hne).1 hone)
      intro one hone
      rcases List.mem_append.1 hone with hone | hone
      · exact hfronts one hone
      · obtain rfl := List.mem_singleton.1 hone
        exact h one (by simp) fun other ho => hfronts other (pair_sublist_append_self_iff.1 ho)

end Pairs

def Owner.isDirectory : Owner → Bool
  | directory _ => true
  | keys _ => false

namespace Registry

variable {tree : Tree} {compress : Bool} {registry after early late : Registry}
  {owners first second : List Owner} {owner other : Owner} {package name : String}

theorem KeptBy.place? (h : registry.KeptBy after) {place : String × String}
    (hplace : registry.place? compress owner = some place) :
    after.place? compress owner = some place := by
  obtain ⟨package, name⟩ := place
  obtain ⟨hpackage, hname⟩ := place?_eq_some_iff.1 hplace
  obtain ⟨home, hhome, hfind⟩ := Option.bind_eq_some_iff.1 hpackage
  exact place?_eq_some_iff.2
    ⟨Option.bind_eq_some_iff.2 ⟨home, hhome, h.packages _ _ hfind⟩, h.name? hname⟩

def scope (registry : Registry) (package : String) : NameSet :=
  (registry.packageScopes.find? package).getD ∅

/-- What the name of a key wrapper is made from. -/
def keyCandidate (listMessage : String) : String := s!"{listMessage}Key"

/-- What the name of an owner's message is made from. -/
def candidate (registry : Registry) : Owner → String
  | .directory site => Identifier.pascalCase site.name
  | .keys list => keyCandidate ((registry.messages.find? list.pathText).getD "")

/-- The owner has the first free name for its candidate where just the names of the owners before it
in its package are taken. -/
def NamedAmong (compress : Bool) (owners : List Owner) (owner : Owner) (registry : Registry) :
    Prop :=
  ∃ package, ∃ used : NameSet,
    registry.place? compress owner = some (package, used.firstFree (registry.candidate owner)) ∧
    ∀ name, used.contains name = true ↔
      ∃ other, [other, owner].Sublist owners ∧ registry.place? compress other = some (package, name)

/-- The owners, and no others, have been named one after the other. -/
structure InTurn (tree : Tree) (compress : Bool) (owners : List Owner) (registry : Registry) :
    Prop where
  nodup : owners.Nodup
  sites : ∀ owner ∈ owners, tree.HasSite owner.site
  /-- The keys of a list are named after the list. -/
  lists : ∀ list, Owner.keys list ∈ owners → [.directory list, .keys list].Sublist owners
  named : ∀ owner ∈ owners, registry.NamedAmong compress owners owner
  messages : ∀ {path name}, registry.messages.find? path = some name →
    ∃ site, Owner.directory site ∈ owners ∧ site.pathText = path
  keyMessages : ∀ {path name}, registry.keyMessages.find? path = some name →
    ∃ list, Owner.keys list ∈ owners ∧ list.pathText = path
  taken : ∀ {package name}, registry.isTaken package name = true ↔
    ∃ owner ∈ owners, registry.place? compress owner = some (package, name)

theorem InTurn.exists_place? (h : registry.InTurn tree compress owners) (howner : owner ∈ owners) :
    ∃ place, registry.place? compress owner = some place := by
  obtain ⟨package, used, hplace, _⟩ := h.named owner howner
  exact ⟨_, hplace⟩

/-- A message of the tree that has a name is that of one of the owners. -/
theorem InTurn.mem_of_name? (hroot : tree.root.Distinct) (hslash : tree.SlashFree)
    (h : registry.InTurn tree compress owners) (hsite : tree.HasSite owner.site)
    (hname : registry.name? owner = some name) : owner ∈ owners := by
  cases owner with
  | directory site =>
      obtain ⟨other, hmem, hpath⟩ := h.messages hname
      obtain rfl : other = site :=
        tree.eq_of_pathText_eq hroot hslash (h.sites _ hmem) hsite hpath
      exact hmem
  | keys list =>
      obtain ⟨other, hmem, hpath⟩ := h.keyMessages hname
      obtain rfl : other = list :=
        tree.eq_of_pathText_eq hroot hslash (h.sites _ hmem) hsite hpath
      exact hmem

/-!
## Naming one more owner
-/

/-- It is all the same to names whether more packages are known. -/
theorem InTurn.of_packages (h : registry.InTurn tree compress owners)
    (hpackages : registry.packages.Included after.packages)
    (hmessages : after.messages = registry.messages)
    (hkeys : after.keyMessages = registry.keyMessages)
    (hscopes : after.packageScopes = registry.packageScopes) :
    after.InTurn tree compress owners := by
  have hplace : ∀ owner ∈ owners,
      after.place? compress owner = registry.place? compress owner := by
    intro owner howner
    obtain ⟨⟨package, name⟩, hplace⟩ := h.exists_place? howner
    obtain ⟨hpackage, hname⟩ := place?_eq_some_iff.1 hplace
    obtain ⟨home, hhome, hfind⟩ := Option.bind_eq_some_iff.1 hpackage
    rw [hplace, place?_eq_some_iff]
    refine ⟨Option.bind_eq_some_iff.2 ⟨home, hhome, hpackages _ _ hfind⟩, ?_⟩
    cases owner with
    | directory site => rwa [Registry.name?, hmessages]
    | keys list => rwa [Registry.name?, hkeys]
  refine ⟨h.nodup, h.sites, h.lists, fun owner howner => ?_, hmessages ▸ h.messages,
    hkeys ▸ h.keyMessages, fun {package name} => ?_⟩
  · obtain ⟨package, used, hown, hused⟩ := h.named owner howner
    refine ⟨package, used, ?_, fun name => (hused name).trans (exists_congr fun other => ?_)⟩
    · rw [hplace owner howner, hown]
      cases owner with
      | directory site => rfl
      | keys list => rw [candidate, candidate, hmessages]
    · refine and_congr_right fun hbefore => ?_
      rw [hplace other (hbefore.subset List.mem_cons_self)]
  · have hsame : after.isTaken package name = registry.isTaken package name := by
      rw [isTaken, isTaken, hscopes]
    rw [hsame, h.taken]
    refine exists_congr fun owner => and_congr_right fun howner => ?_
    rw [hplace owner howner]

/-- A message with a name after one more has been given had it before, or is that of the owner. -/
theorem of_find?_messages_withName {path found : String} {count : Nat}
    (h : (registry.withName owner package name count).messages.find? path = some found) :
    (∃ site, owner = .directory site ∧ site.pathText = path) ∨
      registry.messages.find? path = some found := by
  cases owner with
  | keys list => exact .inr h
  | directory site =>
      rw [Registry.withName, SortedMap.find?_insert] at h
      split at h
      · rename_i heq
        exact .inl ⟨site, rfl, heq.symm⟩
      · exact .inr h

theorem of_find?_keyMessages_withName {path found : String} {count : Nat}
    (h : (registry.withName owner package name count).keyMessages.find? path = some found) :
    (∃ list, owner = .keys list ∧ list.pathText = path) ∨
      registry.keyMessages.find? path = some found := by
  cases owner with
  | directory site => exact .inr h
  | keys list =>
      rw [Registry.withName, SortedMap.find?_insert] at h
      split at h
      · rename_i heq
        exact .inl ⟨list, rfl, heq.symm⟩
      · exact .inr h

section WithName

variable (hroot : tree.root.Distinct) (hslash : tree.SlashFree)
  (h : registry.InTurn tree compress owners) (hsite : tree.HasSite owner.site)
  (hnew : owner ∉ owners)
include hroot hslash h hsite hnew

theorem InTurn.place?_withName (hother : other ∈ owners) (package name : String) (count : Nat) :
    (registry.withName owner package name count).place? compress other =
      registry.place? compress other :=
  place?_withName_of_ne hroot hslash hsite (h.sites other hother)
    (ne_of_mem_of_not_mem hother hnew) registry compress package name count

/-- What the name of an owner is made from stays the same, once the message of its list is named. -/
theorem InTurn.candidate_withName
    (hlist : ∀ list, other = .keys list → .directory list ∈ owners) (package name : String)
    (count : Nat) :
    (registry.withName owner package name count).candidate other = registry.candidate other := by
  cases other with
  | directory site => rfl
  | keys list =>
      have hmem := hlist list rfl
      have hsame : (registry.withName owner package name count).name? (.directory list) =
          registry.name? (.directory list) :=
        name?_withName_of_ne hroot hslash hsite (h.sites _ hmem) (ne_of_mem_of_not_mem hmem hnew)
          registry package name count
      exact congrArg (fun name => keyCandidate (name.getD "")) hsame

/-- Who has been named in turn still has the first name that was free then. -/
theorem InTurn.named_withName (hother : other ∈ owners) (package name : String) (count : Nat) :
    (registry.withName owner package name count).NamedAmong compress (owners ++ [owner]) other := by
  obtain ⟨own, used, hplace, hused⟩ := h.named other hother
  have hlist : ∀ list, other = .keys list → .directory list ∈ owners := fun list heq =>
    (h.lists list (heq ▸ hother)).subset List.mem_cons_self
  refine ⟨own, used, ?_, fun found => (hused found).trans (exists_congr fun one => ?_)⟩
  · rw [h.place?_withName hroot hslash hsite hnew hother,
      h.candidate_withName hroot hslash hsite hnew hlist, hplace]
  · rw [pair_sublist_append_iff (List.mem_singleton.not.2 (ne_of_mem_of_not_mem hother hnew))]
    refine and_congr_right fun hbefore => ?_
    rw [h.place?_withName hroot hslash hsite hnew (hbefore.subset List.mem_cons_self)]

/-- The owner that is named last has the first name that is free now. -/
theorem InTurn.named_withName_self (hlist : ∀ list, owner = .keys list → .directory list ∈ owners)
    (hpackage : registry.package? compress owner = some package)
    (hname : name = (registry.scope package).firstFree (registry.candidate owner)) (count : Nat) :
    (registry.withName owner package name count).NamedAmong compress (owners ++ [owner]) owner := by
  refine ⟨package, registry.scope package, ?_, fun found =>
    h.taken.trans (exists_congr fun one => ?_)⟩
  · rw [place?_withName_self owner hpackage, h.candidate_withName hroot hslash hsite hnew hlist,
      hname]
  · rw [pair_sublist_append_self_iff]
    refine and_congr_right fun hone => ?_
    rw [h.place?_withName hroot hslash hsite hnew hone]

/-- An owner that gets the first free name for its candidate is named in turn. -/
theorem InTurn.withName (hlist : ∀ list, owner = .keys list → .directory list ∈ owners)
    (hpackage : registry.package? compress owner = some package)
    (hname : name = (registry.scope package).firstFree (registry.candidate owner))
    (count : Nat) :
    (registry.withName owner package name count).InTurn tree compress (owners ++ [owner]) := by
  refine ⟨?_, fun other ho => ?_, fun list hkeys => ?_, fun other ho => ?_,
    fun {path found} hfound => ?_, fun {path found} hfound => ?_, fun {own found} => ?_⟩
  · exact List.nodup_append.2 ⟨h.nodup, List.nodup_singleton owner, fun other ho last hlast =>
      List.mem_singleton.1 hlast ▸ ne_of_mem_of_not_mem ho hnew⟩
  · rcases List.mem_append.1 ho with ho | ho
    · exact h.sites other ho
    · exact List.mem_singleton.1 ho ▸ hsite
  · rcases List.mem_append.1 hkeys with hkeys | hkeys
    · exact (h.lists list hkeys).trans (List.sublist_append_left _ _)
    · obtain rfl := List.mem_singleton.1 hkeys
      exact pair_sublist_append_self_iff.2 (hlist list rfl)
  · rcases List.mem_append.1 ho with ho | ho
    · exact h.named_withName hroot hslash hsite hnew ho package name count
    · obtain rfl := List.mem_singleton.1 ho
      exact h.named_withName_self hroot hslash hsite hnew hlist hpackage hname count
  · rcases of_find?_messages_withName hfound with ⟨site, rfl, hpath⟩ | hfound
    · exact ⟨site, by simp, hpath⟩
    · obtain ⟨other, hmem, hpath⟩ := h.messages hfound
      exact ⟨other, List.mem_append_left _ hmem, hpath⟩
  · rcases of_find?_keyMessages_withName hfound with ⟨list, rfl, hpath⟩ | hfound
    · exact ⟨list, by simp, hpath⟩
    · obtain ⟨other, hmem, hpath⟩ := h.keyMessages hfound
      exact ⟨other, List.mem_append_left _ hmem, hpath⟩
  · have hself := place?_withName_self owner hpackage name count
    rw [isTaken_withName, Bool.or_eq_true, decide_eq_true_iff, h.taken]
    constructor
    · rintro (⟨rfl, rfl⟩ | ⟨one, hone, hplace⟩)
      · exact ⟨owner, by simp, hself⟩
      · refine ⟨one, List.mem_append_left _ hone, ?_⟩
        rw [h.place?_withName hroot hslash hsite hnew hone, hplace]
    · rintro ⟨one, hone, hplace⟩
      rcases List.mem_append.1 hone with hone | hone
      · rw [h.place?_withName hroot hslash hsite hnew hone] at hplace
        exact Or.inr ⟨one, hone, hplace⟩
      · rw [List.mem_singleton.1 hone, hself, Option.some.injEq, Prod.mk.injEq] at hplace
        exact Or.inl ⟨hplace.1.symm, hplace.2.symm⟩

end WithName

/-!
## Packages in turn
-/

structure SamePackages (registry other : Registry) : Prop where
  base : other.basePackage = registry.basePackage
  packages : other.packages = registry.packages
  used : other.usedPackages = registry.usedPackages

theorem SamePackages.packageFor (h : registry.SamePackages after) (compress : Bool) (site : Site) :
    (packageFor compress site registry).2.SamePackages (packageFor compress site after).2 := by
  rw [Registry.packageFor, Registry.packageFor, h.packages]
  cases hfind : registry.packages.find? (site.anchor compress) with
  | some package => exact h
  | none =>
      dsimp only
      rw [h.base, h.used]
      exact ⟨rfl, rfl, rfl⟩

/-- The registries have the same packages and the same names of messages. -/
structure SameNames (registry other : Registry) : Prop extends SamePackages registry other where
  messages : other.messages = registry.messages
  keyMessages : other.keyMessages = registry.keyMessages
  scopes : other.packageScopes = registry.packageScopes

theorem SameNames.refl (registry : Registry) : registry.SameNames registry :=
  ⟨⟨rfl, rfl, rfl⟩, rfl, rfl, rfl⟩

theorem SamePackages.trans (h : registry.SamePackages early) (h' : early.SamePackages late) :
    registry.SamePackages late :=
  ⟨h'.base.trans h.base, h'.packages.trans h.packages, h'.used.trans h.used⟩

theorem SameNames.trans (h : registry.SameNames early) (h' : early.SameNames late) :
    registry.SameNames late :=
  ⟨h.toSamePackages.trans h'.toSamePackages, h'.messages.trans h.messages,
    h'.keyMessages.trans h.keyMessages, h'.scopes.trans h.scopes⟩

theorem sameNames_sharedEnumName (leafPath : String) (type : LeafType) (registry : Registry) :
    registry.SameNames (sharedEnumName leafPath type registry).2 := by
  rw [sharedEnumName]
  split
  · exact .refl registry
  · exact ⟨⟨rfl, rfl, rfl⟩, rfl, rfl, rfl⟩

/-- What the naming of a message does to the packages: those of key wrappers are there already. -/
def packageInTurn (compress : Bool) (registry : Registry) : Owner → Registry
  | .directory site => (packageFor compress site registry).2
  | .keys _ => registry

def packagesInTurn (config : Config) (owners : List Owner) : Registry :=
  owners.foldl (packageInTurn config.compressPaths) (cold config)

/-- The registry comes from the cold one by naming the owners one after the other. -/
structure ComesFrom (config : Config) (tree : Tree) (owners : List Owner) (registry : Registry) :
    Prop where
  inTurn : registry.InTurn tree config.compressPaths owners
  packages : (packagesInTurn config owners).SamePackages registry

theorem comesFrom_cold (config : Config) (tree : Tree) :
    (cold config).ComesFrom config tree [] where
  packages := ⟨rfl, rfl, rfl⟩
  inTurn :=
    { nodup := List.nodup_nil
      sites := fun _ ho => absurd ho List.not_mem_nil
      lists := fun _ ho => absurd ho List.not_mem_nil
      named := fun _ ho => absurd ho List.not_mem_nil
      messages := fun hfound => nomatch hfound
      keyMessages := fun hfound => nomatch hfound
      taken := fun {package name} => by
        constructor
        · exact fun h => nomatch h
        · rintro ⟨_, ho, _⟩
          exact absurd ho List.not_mem_nil }

/-!
## The operations
-/

variable {config : Config} {site list : Site}

theorem messageName_of_none (hnone : registry.messages.find? site.pathText = none)
    (hrun : messageName compress site registry = (.ok name, after)) :
    ∃ package middle count, packageFor compress site registry = (package, middle) ∧
      name = (middle.scope package).firstFree (Identifier.pascalCase site.name) ∧
      after = middle.withName (.directory site) package name count := by
  rw [messageName_eq, hnone] at hrun
  cases hfrozen : registry.frozen with
  | true =>
      rw [hfrozen] at hrun
      cases hrun
  | false =>
      rw [hfrozen] at hrun
      cases hrun
      exact ⟨_, _, _, rfl, rfl, rfl⟩

theorem keyMessageName_of_none {listMessage : String}
    (hnone : registry.keyMessages.find? list.pathText = none)
    (hrun : keyMessageName list listMessage package registry = (.ok name, after)) :
    name = (registry.scope package).firstFree (keyCandidate listMessage) ∧
      ∃ count, after = registry.withName (.keys list) package name count := by
  rw [keyMessageName_eq, hnone] at hrun
  cases hfrozen : registry.frozen with
  | true =>
      rw [hfrozen] at hrun
      cases hrun
  | false =>
      rw [hfrozen] at hrun
      cases hrun
      exact ⟨rfl, _, rfl⟩

theorem InTurn.packageFor (h : registry.InTurn tree compress owners) (compress' : Bool)
    (site : Site) : (packageFor compress' site registry).2.InTurn tree compress owners := by
  cases hrun : Registry.packageFor compress' site registry with
  | mk package middle =>
      rcases packageFor_cases hrun with ⟨_, rfl⟩ | ⟨hnone, _, count, rfl⟩
      · exact h
      · exact h.of_packages (extends_withPackage hnone package count).packages rfl rfl rfl

theorem ComesFrom.messageName (hroot : tree.root.Distinct) (hslash : tree.SlashFree)
    (h : registry.ComesFrom config tree owners) (hsite : tree.HasSite site)
    (hnew : Owner.directory site ∉ owners)
    (hrun : messageName config.compressPaths site registry = (.ok name, after)) :
    after.ComesFrom config tree (owners ++ [.directory site]) := by
  have howner : tree.HasSite (Owner.directory site).site := hsite
  have hnone : registry.messages.find? site.pathText = none := by
    refine Option.eq_none_iff_forall_ne_some.2 fun found hfound => hnew ?_
    exact h.inTurn.mem_of_name? hroot hslash howner hfound
  obtain ⟨package, middle, count, hpackage, hname, rfl⟩ := messageName_of_none hnone hrun
  have hmiddle := h.inTurn.packageFor config.compressPaths site
  have hpackages := h.packages.packageFor config.compressPaths site
  rw [hpackage] at hmiddle hpackages
  refine ⟨hmiddle.withName hroot hslash howner hnew (fun _ heq => nomatch heq)
    (keptBy_packageFor hpackage).2 hname count, ?_⟩
  rw [packagesInTurn, List.foldl_append]
  exact ⟨hpackages.base, hpackages.packages, hpackages.used⟩

theorem ComesFrom.keyMessageName (hroot : tree.root.Distinct) (hslash : tree.SlashFree)
    (h : registry.ComesFrom config tree owners) (hsite : tree.HasSite list)
    (hnew : Owner.keys list ∉ owners) (hlist : Owner.directory list ∈ owners)
    {listMessage : String} (hmessage : registry.messages.find? list.pathText = some listMessage)
    (hpackage : registry.package? config.compressPaths (.keys list) = some package)
    (hrun : keyMessageName list listMessage package registry = (.ok name, after)) :
    after.ComesFrom config tree (owners ++ [.keys list]) := by
  have howner : tree.HasSite (Owner.keys list).site := hsite
  have hnone : registry.keyMessages.find? list.pathText = none := by
    refine Option.eq_none_iff_forall_ne_some.2 fun found hfound => hnew ?_
    exact h.inTurn.mem_of_name? hroot hslash howner hfound
  obtain ⟨hname, count, rfl⟩ := keyMessageName_of_none hnone hrun
  have hcandidate : registry.candidate (.keys list) = keyCandidate listMessage := by
    rw [candidate, hmessage]
    rfl
  refine ⟨h.inTurn.withName hroot hslash howner hnew (fun other heq => ?_) hpackage
    (hcandidate ▸ hname) count, ?_⟩
  · obtain rfl := Owner.keys.inj heq
    exact hlist
  · rw [packagesInTurn, List.foldl_append]
    exact ⟨h.packages.base, h.packages.packages, h.packages.used⟩

theorem ComesFrom.of_sameNames (h : registry.ComesFrom config tree owners)
    (hsame : registry.SameNames after) : after.ComesFrom config tree owners where
  inTurn := h.inTurn.of_packages (hsame.packages ▸ .refl _) hsame.messages hsame.keyMessages
    hsame.scopes
  packages := h.packages.trans hsame.toSamePackages

/-- A message that has been named keeps its name and package. -/
theorem ComesFrom.place_again (h : registry.ComesFrom config tree owners)
    (howner : Owner.directory site ∈ owners) :
    ∃ package name, registry.packages.find? (site.anchor config.compressPaths) = some package ∧
      registry.messages.find? site.pathText = some name := by
  obtain ⟨⟨package, name⟩, hplace⟩ := h.inTurn.exists_place? howner
  obtain ⟨hpackage, hname⟩ := place?_eq_some_iff.1 hplace
  exact ⟨package, name, hpackage, hname⟩

/-!
## Two orders
-/

theorem packagesInTurn_filter (config : Config) (owners : List Owner) :
    packagesInTurn config (owners.filter Owner.isDirectory) = packagesInTurn config owners := by
  have hfold : ∀ start : Registry,
      (owners.filter Owner.isDirectory).foldl (packageInTurn config.compressPaths) start =
        owners.foldl (packageInTurn config.compressPaths) start := by
    induction owners with
    | nil => exact fun _ => rfl
    | cons owner rest ih =>
        intro start
        cases owner with
        | directory site => exact ih _
        | keys list => exact ih start
  exact hfold (cold config)

/-- Where the same directories are named in the same order, the packages are the same. -/
theorem ComesFrom.packages_eq (hearly : early.ComesFrom config tree first)
    (hlate : late.ComesFrom config tree second)
    (hsame : first.filter Owner.isDirectory = second.filter Owner.isDirectory) :
    late.packages = early.packages := by
  rw [hlate.packages.packages, hearly.packages.packages, ← packagesInTurn_filter, ← hsame,
    packagesInTurn_filter]

section TwoOrders

variable (hearly : early.InTurn tree compress first) (hlate : late.InTurn tree compress second)
include hearly hlate

/-- An owner has its names in one package, each the first free one among those of the owners before
it. -/
theorem InTurn.exists_used (hpackages : late.packages = early.packages) (hfirst : owner ∈ first)
    (hsecond : owner ∈ second) :
    ∃ package, ∃ used used' : NameSet,
      late.place? compress owner = some (package, used.firstFree (late.candidate owner)) ∧
      early.place? compress owner = some (package, used'.firstFree (early.candidate owner)) ∧
      (∀ name, used.contains name = true ↔
        ∃ one, [one, owner].Sublist second ∧ late.place? compress one = some (package, name)) ∧
      ∀ name, used'.contains name = true ↔
        ∃ one, [one, owner].Sublist first ∧ early.place? compress one = some (package, name) := by
  obtain ⟨package, used, hown, hused⟩ := hlate.named _ hsecond
  obtain ⟨package', used', hown', hused'⟩ := hearly.named _ hfirst
  have hfind := (place?_eq_some_iff.1 hown).1
  rw [package?, hpackages] at hfind
  obtain rfl := Option.some.inj ((place?_eq_some_iff.1 hown').1.symm.trans hfind)
  exact ⟨package', used, used', hown, hown', hused, hused'⟩

/-- A directory gets the name that it has in the earlier registry, if more owners come before it
here than there. -/
theorem InTurn.place?_directory_eq (hpackages : late.packages = early.packages)
    (hsub : ∀ owner ∈ second, owner ∈ first) {site : Site} (hsite : .directory site ∈ second)
    (hdirectories : ∀ one, [one, .directory site].Sublist first →
      [one, .directory site].Sublist second)
    (hinjective : ∀ one ∈ first, ∀ other ∈ first, ∀ place,
      early.place? compress one = some place → early.place? compress other = some place →
      one = other)
    (hbefore : ∀ one, [one, .directory site].Sublist second →
      late.place? compress one = early.place? compress one) :
    late.place? compress (.directory site) = early.place? compress (.directory site) := by
  obtain ⟨package, used, used', hown, hown', hused, hused'⟩ :=
    hearly.exists_used hlate hpackages (hsub _ hsite) hsite
  have hfirst : used.firstFree (early.candidate (.directory site)) =
      used'.firstFree (early.candidate (.directory site)) := by
    refine NameSet.firstFree_of_subset (fun name hname => ?_) (Bool.eq_false_iff.2 fun htaken => ?_)
    · obtain ⟨one, hone, hplace⟩ := (hused' name).1 hname
      have hone := hdirectories one hone
      exact (hused name).2 ⟨one, hone, (hbefore one hone).trans hplace⟩
    · -- an owner that comes before here would have the same place there
      obtain ⟨one, hone, hplace⟩ := (hused _).1 htaken
      have hsame := hinjective one (hsub one (hone.subset List.mem_cons_self)) _ (hsub _ hsite) _
        ((hbefore one hone).symm.trans hplace) hown'
      exact not_pair_sublist_of_nodup hlate.nodup (hsame ▸ hone)
  exact hown.trans ((congrArg (fun name => some (package, name)) hfirst).trans hown'.symm)

/-- The key wrapper of a list gets the name that it has in the earlier registry, if fewer owners
come before it here than there, and the earlier registry gives the name to no other message. -/
theorem InTurn.place?_keys_eq (hpackages : late.packages = early.packages)
    (hsub : ∀ owner ∈ second, owner ∈ first) {list : Site} (hlist : .keys list ∈ second)
    (hkeys : ∀ one, [one, .keys list].Sublist second → [one, .keys list].Sublist first)
    (happart : ∀ place, late.place? compress (.keys list) = some place → ∀ owner ∈ first,
      early.place? compress owner = some place → owner = .keys list)
    (hbefore : ∀ one, [one, .keys list].Sublist second →
      late.place? compress one = early.place? compress one) :
    late.place? compress (.keys list) = early.place? compress (.keys list) := by
  obtain ⟨package, used, used', hown, hown', hused, hused'⟩ :=
    hearly.exists_used hlate hpackages (hsub _ hlist) hlist
  have hcandidate : late.candidate (.keys list) = early.candidate (.keys list) := by
    have hplace := hbefore _ (hlate.lists list hlist)
    obtain ⟨place, hfound⟩ := hlate.exists_place?
      ((hlate.lists list hlist).subset List.mem_cons_self)
    have hname := (place?_eq_some_iff.1 hfound).2
    have hname' := (place?_eq_some_iff.1 (hplace ▸ hfound)).2
    rw [Registry.name?] at hname hname'
    rw [candidate, candidate, hname, hname']
  rw [hcandidate] at hown
  have hfirst : used'.firstFree (early.candidate (.keys list)) =
      used.firstFree (early.candidate (.keys list)) := by
    refine NameSet.firstFree_of_subset (fun name hname => ?_) (Bool.eq_false_iff.2 fun htaken => ?_)
    · obtain ⟨one, hone, hplace⟩ := (hused name).1 hname
      exact (hused' name).2 ⟨one, hkeys one hone, (hbefore one hone).symm.trans hplace⟩
    · -- an owner that comes before there would have the place that the wrapper gets here
      obtain ⟨one, hone, hplace⟩ := (hused' _).1 htaken
      have hsame := happart _ hown one (hone.subset List.mem_cons_self) hplace
      exact not_pair_sublist_of_nodup hearly.nodup (hsame ▸ hone)
  exact hown.trans ((congrArg (fun name => some (package, name)) hfirst.symm).trans hown'.symm)

/-- Suppose that the later registry names directories after more owners than the earlier one and key
wrappers after fewer. Then it gives the same names, unless it gives some key wrapper a name that the
earlier one gives to another message. -/
theorem InTurn.place?_eq (hpackages : late.packages = early.packages)
    (hsub : ∀ owner ∈ second, owner ∈ first)
    (hdirectories : ∀ one site, [one, .directory site].Sublist first →
      [one, .directory site].Sublist second)
    (hkeys : ∀ one list, [one, .keys list].Sublist second → [one, .keys list].Sublist first)
    (hinjective : ∀ one ∈ first, ∀ other ∈ first, ∀ place,
      early.place? compress one = some place → early.place? compress other = some place →
      one = other)
    (happart : ∀ list, .keys list ∈ second → ∀ place,
      late.place? compress (.keys list) = some place → ∀ owner ∈ first,
      early.place? compress owner = some place → owner = .keys list) :
    ∀ owner ∈ second, late.place? compress owner = early.place? compress owner := by
  -- what has been named before an owner agrees, so the owner gets its name from like scopes
  refine forall_of_forall_before hlate.nodup fun owner howner hbefore => ?_
  cases owner with
  | directory site =>
      exact hearly.place?_directory_eq hlate hpackages hsub howner (hdirectories · site) hinjective
        hbefore
  | keys list =>
      exact hearly.place?_keys_eq hlate hpackages hsub howner (hkeys · list) (happart list howner)
        hbefore

end TwoOrders

end Registry

end YangToProto

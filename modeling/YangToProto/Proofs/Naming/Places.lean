import YangToProto.Proofs.Naming.Steps

/-!
# Places of messages

The place of a message is its package and its name. While a registry assigns names, every named
message has a place, different messages of a tree have different places, and none stands in the
package that was reserved (`Registry.Scoped`). Each naming operation keeps that and only extends
what was recorded (`Registry.Extends`).

The registry that a run starts from has a place for every owner of the tree
(`Registry.ready_of_ready_eq_ok`).
-/

namespace YangToProto

namespace Registry

variable {compress : Bool} {tree : Tree} {reserved : String} {registry middle after : Registry}
  {owner other : Owner}

def package? (registry : Registry) (compress : Bool) (owner : Owner) : Option String :=
  (owner.home? compress).bind fun home => registry.packages.find? (home.anchor compress)

def place? (registry : Registry) (compress : Bool) (owner : Owner) : Option (String × String) :=
  (registry.package? compress owner).bind fun package =>
    (registry.name? owner).map fun name => (package, name)

theorem place?_eq_some_iff {package name : String} :
    registry.place? compress owner = some (package, name) ↔
      registry.package? compress owner = some package ∧ registry.name? owner = some name := by
  simp only [place?, Option.bind_eq_some_iff, Option.map_eq_some_iff, Prod.mk.injEq]
  constructor
  · rintro ⟨_, hpackage, _, hname, rfl, rfl⟩
    exact ⟨hpackage, hname⟩
  · rintro ⟨hpackage, hname⟩
    exact ⟨package, hpackage, name, hname, rfl, rfl⟩

/-!
## What later registries keep
-/

/-- Whatever is recorded in the first registry is recorded in the second one as well. -/
structure Extends (registry after : Registry) : Prop where
  packages : registry.packages.Included after.packages
  messages : registry.messages.Included after.messages
  keyMessages : registry.keyMessages.Included after.keyMessages
  sharedEnums : registry.sharedEnums.Included after.sharedEnums

theorem Extends.refl (registry : Registry) : registry.Extends registry :=
  ⟨.refl _, .refl _, .refl _, .refl _⟩

theorem Extends.trans (h : registry.Extends middle) (h' : middle.Extends after) :
    registry.Extends after :=
  ⟨h.packages.trans h'.packages, h.messages.trans h'.messages,
    h.keyMessages.trans h'.keyMessages, h.sharedEnums.trans h'.sharedEnums⟩

theorem Extends.package? (h : registry.Extends after) {package : String}
    (hpackage : registry.package? compress owner = some package) :
    after.package? compress owner = some package := by
  obtain ⟨home, hhome, hfind⟩ := Option.bind_eq_some_iff.1 hpackage
  exact Option.bind_eq_some_iff.2 ⟨home, hhome, h.packages _ _ hfind⟩

theorem Extends.name? (h : registry.Extends after) {name : String}
    (hname : registry.name? owner = some name) : after.name? owner = some name := by
  cases owner with
  | directory site => exact h.messages _ _ hname
  | keys list => exact h.keyMessages _ _ hname

theorem Extends.place? (h : registry.Extends after) {place : String × String}
    (hplace : registry.place? compress owner = some place) :
    after.place? compress owner = some place := by
  obtain ⟨package, name⟩ := place
  rw [place?_eq_some_iff] at hplace ⊢
  exact ⟨h.package? hplace.1, h.name? hplace.2⟩

theorem extends_withPackage {anchor : Anchor} (h : registry.packages.find? anchor = none)
    (package : String) (count : Nat) :
    registry.Extends (registry.withPackage anchor package count) :=
  ⟨SortedMap.included_insert h package, .refl _, .refl _, .refl _⟩

theorem extends_withName (owner : Owner) (h : registry.name? owner = none)
    (package name : String) (count : Nat) :
    registry.Extends (registry.withName owner package name count) := by
  cases owner with
  | directory site => exact ⟨.refl _, SortedMap.included_insert h name, .refl _, .refl _⟩
  | keys list => exact ⟨.refl _, .refl _, SortedMap.included_insert h name, .refl _⟩

/-!
## The invariant
-/

/-- Shared enums are recorded under their own names, and those are taken. -/
structure EnumsRecorded (registry : Registry) : Prop where
  recorded : ∀ {key name}, registry.enumNames.find? key = some name →
    registry.sharedEnums.contains name = true
  named : ∀ {name definition}, registry.sharedEnums.find? name = some definition →
    definition.name = name
  taken : ∀ {name}, registry.sharedEnums.contains name = true →
    registry.enumScope.contains name = true

/-- The messages of a tree that have names stand in packages, their names are taken there, no two
have one place, and the reserved package has none of them. -/
structure Scoped (tree : Tree) (compress : Bool) (reserved : String) (registry : Registry) :
    Prop where
  taken : ∀ {owner name}, tree.HasSite owner.site → registry.name? owner = some name →
    ∃ package, registry.package? compress owner = some package ∧
      registry.isTaken package name = true
  injective : ∀ {owner other place}, tree.HasSite owner.site → tree.HasSite other.site →
    registry.place? compress owner = some place → registry.place? compress other = some place →
    owner = other
  kept : registry.usedPackages.contains reserved = true
  ne_reserved : ∀ {anchor package}, registry.packages.find? anchor = some package →
    package ≠ reserved
  enums : registry.EnumsRecorded

theorem name?_withName_self (registry : Registry) (owner : Owner) (package name : String)
    (count : Nat) : (registry.withName owner package name count).name? owner = some name := by
  cases owner <;> exact SortedMap.find?_insert_self _ _ _

theorem name?_withName_of_ne (hroot : tree.root.Distinct) (hslash : tree.SlashFree)
    (ho : tree.HasSite owner.site) (ho' : tree.HasSite other.site) (hne : other ≠ owner)
    (registry : Registry) (package name : String) (count : Nat) :
    (registry.withName owner package name count).name? other = registry.name? other := by
  have hpath : other.site.pathText = owner.site.pathText → other.site = owner.site :=
    tree.eq_of_pathText_eq hroot hslash ho' ho
  cases owner with
  | directory site =>
      cases other with
      | directory site' =>
          exact SortedMap.find?_insert_ne _ _ fun h => hne (congrArg Owner.directory (hpath h))
      | keys list' => rfl
  | keys list =>
      cases other with
      | directory site' => rfl
      | keys list' =>
          exact SortedMap.find?_insert_ne _ _ fun h => hne (congrArg Owner.keys (hpath h))

theorem package?_withName (registry : Registry) (owner other : Owner) (package name : String)
    (count : Nat) :
    (registry.withName owner package name count).package? compress other =
      registry.package? compress other := by
  cases owner <;> rfl

theorem Scoped.withPackage (h : registry.Scoped tree compress reserved) {anchor : Anchor}
    {package : String} (hnew : registry.packages.find? anchor = none)
    (hfree : registry.usedPackages.contains package = false) (count : Nat) :
    (registry.withPackage anchor package count).Scoped tree compress reserved := by
  have hextends := extends_withPackage hnew package count
  -- a message that has a name had its place before
  have hplace : ∀ {owner place}, tree.HasSite owner.site →
      (registry.withPackage anchor package count).place? compress owner = some place →
      registry.place? compress owner = some place := by
    rintro owner ⟨own, name⟩ howner hafter
    obtain ⟨hown, hname⟩ := place?_eq_some_iff.1 hafter
    obtain ⟨before, hbefore, _⟩ := h.taken howner hname
    have hsame := hextends.package? hbefore
    rw [hown] at hsame
    cases hsame
    exact place?_eq_some_iff.2 ⟨hbefore, hname⟩
  constructor
  · intro owner name howner hname
    obtain ⟨before, hbefore, htaken⟩ := h.taken howner hname
    exact ⟨before, hextends.package? hbefore, htaken⟩
  · intro owner other place howner hother hone htwo
    exact h.injective howner hother (hplace howner hone) (hplace hother htwo)
  · exact NameSet.contains_add_of_contains h.kept package
  · intro other given hgiven
    rw [Registry.withPackage, SortedMap.find?_insert] at hgiven
    split at hgiven
    · cases hgiven
      intro heq
      rw [heq, h.kept] at hfree
      cases hfree
    · exact h.ne_reserved hgiven
  · exact ⟨h.enums.recorded, h.enums.named, h.enums.taken⟩

theorem place?_withName_self (owner : Owner) {package : String}
    (hpackage : registry.package? compress owner = some package) (name : String) (count : Nat) :
    (registry.withName owner package name count).place? compress owner = some (package, name) := by
  rw [place?_eq_some_iff, package?_withName]
  exact ⟨hpackage, name?_withName_self registry owner package name count⟩

theorem place?_withName_of_ne (hroot : tree.root.Distinct) (hslash : tree.SlashFree)
    (ho : tree.HasSite owner.site) (ho' : tree.HasSite other.site) (hne : other ≠ owner)
    (registry : Registry) (compress : Bool) (package name : String) (count : Nat) :
    (registry.withName owner package name count).place? compress other =
      registry.place? compress other := by
  rw [place?, place?, package?_withName, name?_withName_of_ne hroot hslash ho ho' hne]

/-- A name that is free in a package belongs to no message there. -/
theorem Scoped.place?_ne (h : registry.Scoped tree compress reserved)
    (howner : tree.HasSite owner.site) {package name : String}
    (hfree : registry.isTaken package name = false) :
    registry.place? compress owner ≠ some (package, name) := by
  intro hplace
  obtain ⟨hpackage, hname⟩ := place?_eq_some_iff.1 hplace
  obtain ⟨own, hown, htaken⟩ := h.taken howner hname
  rw [hpackage] at hown
  cases hown
  rw [hfree] at htaken
  cases htaken

theorem Scoped.withName (hroot : tree.root.Distinct) (hslash : tree.SlashFree)
    (h : registry.Scoped tree compress reserved) (owner : Owner)
    (howner : tree.HasSite owner.site) {package name : String}
    (hpackage : registry.package? compress owner = some package)
    (hfree : registry.isTaken package name = false) (count : Nat) :
    (registry.withName owner package name count).Scoped tree compress reserved := by
  have hself := place?_withName_self owner hpackage name count
  have hothers := fun {other : Owner} (hother : tree.HasSite other.site) (hne : other ≠ owner) =>
    place?_withName_of_ne hroot hslash howner hother hne registry compress package name count
  constructor
  · intro other found hother hfound
    simp only [package?_withName, isTaken_withName]
    by_cases heq : other = owner
    · subst heq
      rw [name?_withName_self] at hfound
      cases hfound
      exact ⟨package, hpackage, by simp⟩
    · rw [name?_withName_of_ne hroot hslash howner hother heq] at hfound
      obtain ⟨own, hown, htaken⟩ := h.taken hother hfound
      exact ⟨own, hown, by simp [htaken]⟩
  · intro one two place hone htwo hplaceOne hplaceTwo
    by_cases heqOne : one = owner
    · by_cases heqTwo : two = owner
      · exact heqOne.trans heqTwo.symm
      · rw [heqOne, hself] at hplaceOne
        cases hplaceOne
        rw [hothers htwo heqTwo] at hplaceTwo
        exact absurd hplaceTwo (h.place?_ne htwo hfree)
    · rw [hothers hone heqOne] at hplaceOne
      by_cases heqTwo : two = owner
      · rw [heqTwo, hself] at hplaceTwo
        cases hplaceTwo
        exact absurd hplaceOne (h.place?_ne hone hfree)
      · rw [hothers htwo heqTwo] at hplaceTwo
        exact h.injective hone htwo hplaceOne hplaceTwo
  · cases owner <;> exact h.kept
  · intro anchor given hgiven
    have hpackages : (registry.withName owner package name count).packages = registry.packages := by
      cases owner <;> rfl
    rw [hpackages] at hgiven
    exact h.ne_reserved hgiven
  · cases owner <;> exact ⟨h.enums.recorded, h.enums.named, h.enums.taken⟩

/-!
## Operations
-/

theorem scoped_packageFor (h : registry.Scoped tree compress reserved) {site : Site}
    {package : String} (hrun : packageFor compress site registry = (package, after)) :
    after.Scoped tree compress reserved ∧ registry.Extends after ∧
      after.packages.find? (site.anchor compress) = some package := by
  rcases packageFor_cases hrun with ⟨hfind, rfl⟩ | ⟨hnone, hfree, count, rfl⟩
  · exact ⟨h, .refl _, hfind⟩
  · exact ⟨h.withPackage hnone hfree count, extends_withPackage hnone package count,
      SortedMap.find?_insert_self _ _ _⟩

theorem scoped_messageName (hroot : tree.root.Distinct) (hslash : tree.SlashFree)
    (h : registry.Scoped tree compress reserved) {site : Site} (hsite : tree.HasSite site)
    {name : String} (hrun : messageName compress site registry = (.ok name, after)) :
    after.Scoped tree compress reserved ∧ registry.Extends after ∧
      after.name? (.directory site) = some name := by
  rcases messageName_cases hrun with ⟨hfind, rfl⟩ | ⟨hnone, package, middle, count, hpackage,
    hfree, rfl⟩
  · exact ⟨h, .refl _, hfind⟩
  · obtain ⟨hmiddle, hextends, hfind⟩ := scoped_packageFor h hpackage
    have hname : middle.name? (.directory site) = none := by
      rcases packageFor_cases hpackage with ⟨_, rfl⟩ | ⟨_, _, _, rfl⟩ <;> exact hnone
    exact ⟨hmiddle.withName hroot hslash (.directory site) hsite hfind hfree count,
      hextends.trans (extends_withName (.directory site) hname package name count),
      name?_withName_self _ _ _ _ _⟩

theorem scoped_keyMessageName (hroot : tree.root.Distinct) (hslash : tree.SlashFree)
    (h : registry.Scoped tree compress reserved) {list : Site} (hlist : tree.HasSite list)
    {listMessage package name : String}
    (hpackage : registry.package? compress (.keys list) = some package)
    (hrun : keyMessageName list listMessage package registry = (.ok name, after)) :
    after.Scoped tree compress reserved ∧ registry.Extends after ∧
      after.name? (.keys list) = some name := by
  rcases keyMessageName_cases hrun with ⟨hfind, rfl⟩ | ⟨hnone, hfree, count, rfl⟩
  · exact ⟨h, .refl _, hfind⟩
  · exact ⟨h.withName hroot hslash (.keys list) hlist hpackage hfree count,
      extends_withName (.keys list) hnone package name count,
      name?_withName_self _ _ _ _ _⟩

/-!
## Naming what directories need
-/

theorem scoped_nameMessages (hroot : tree.root.Distinct) (hslash : tree.SlashFree)
    {directories : List Directory} (hsites : ∀ directory ∈ directories, tree.HasSite directory.site)
    (h : registry.Scoped tree compress reserved)
    (hrun : nameMessages compress directories registry = (.ok (), after)) :
    after.Scoped tree compress reserved ∧ registry.Extends after ∧
      ∀ directory ∈ directories, ∃ name, after.name? (.directory directory.site) = some name := by
  induction directories generalizing registry with
  | nil =>
      obtain ⟨_, rfl⟩ := pure_eq_ok hrun
      exact ⟨h, .refl _, fun _ hmem => nomatch hmem⟩
  | cons directory rest ih =>
      obtain ⟨name, middle, hname, hrest⟩ := bind_eq_ok hrun
      obtain ⟨hmiddle, hextends, hfound⟩ :=
        scoped_messageName hroot hslash h (hsites directory List.mem_cons_self) hname
      obtain ⟨hafter, hextends', hall⟩ :=
        ih (fun other ho => hsites other (List.mem_cons_of_mem _ ho)) hmiddle hrest
      refine ⟨hafter, hextends.trans hextends', fun other ho => ?_⟩
      rcases List.mem_cons.1 ho with rfl | ho
      · exact ⟨name, hextends'.name? hfound⟩
      · exact hall other ho

theorem scoped_nameKeysOf (hroot : tree.root.Distinct) (hslash : tree.SlashFree) {home : Site}
    {package : String} {fields : List Site}
    (hfields : ∀ field ∈ fields, tree.HasSite field ∧ field.holder? compress = some home)
    (h : registry.Scoped tree compress reserved)
    (hpackage : registry.packages.find? (home.anchor compress) = some package)
    (hrun : nameKeysOf compress package fields registry = (.ok (), after)) :
    after.Scoped tree compress reserved ∧ registry.Extends after ∧
      ∀ field ∈ fields, field.node.isKeyedList = true →
        ∃ name, after.name? (.keys field) = some name := by
  induction fields generalizing registry with
  | nil =>
      obtain ⟨_, rfl⟩ := pure_eq_ok hrun
      exact ⟨h, .refl _, fun _ hmem => nomatch hmem⟩
  | cons field rest ih =>
      obtain ⟨hsite, hholder⟩ := hfields field List.mem_cons_self
      have hothers := fun other ho => hfields other (List.mem_cons_of_mem field ho)
      rw [nameKeysOf] at hrun
      by_cases hkeyed : field.node.isKeyedList = true
      · rw [if_pos hkeyed] at hrun
        obtain ⟨listMessage, first, hlist, hrun⟩ := bind_eq_ok hrun
        obtain ⟨name, second, hname, hrest⟩ := bind_eq_ok hrun
        obtain ⟨hfirst, hextends, _⟩ := scoped_messageName hroot hslash h hsite hlist
        have hhome : first.package? compress (.keys field) = some package :=
          Option.bind_eq_some_iff.2 ⟨home, hholder, hextends.packages _ _ hpackage⟩
        obtain ⟨hsecond, hextends', hfound⟩ :=
          scoped_keyMessageName hroot hslash hfirst hsite hhome hname
        have hextends := hextends.trans hextends'
        obtain ⟨hafter, hextends', hall⟩ :=
          ih hothers hsecond (hextends.packages _ _ hpackage) hrest
        refine ⟨hafter, hextends.trans hextends', fun other ho => ?_⟩
        rcases List.mem_cons.1 ho with rfl | ho
        · exact fun _ => ⟨name, hextends'.name? hfound⟩
        · exact hall other ho
      · rw [if_neg hkeyed] at hrun
        obtain ⟨hafter, hextends, hall⟩ := ih hothers h hpackage hrun
        refine ⟨hafter, hextends, fun other ho => ?_⟩
        rcases List.mem_cons.1 ho with rfl | ho
        · exact fun hkeyed' => absurd hkeyed' hkeyed
        · exact hall other ho

theorem scoped_nameKeys (hroot : tree.root.Distinct) (hslash : tree.SlashFree)
    {directories : List Directory}
    (hdirectories : ∀ directory ∈ directories, ∀ field ∈ directory.fields.values,
      tree.HasSite field ∧ field.holder? compress = some directory.site)
    (h : registry.Scoped tree compress reserved)
    (hrun : nameKeys compress directories registry = (.ok (), after)) :
    after.Scoped tree compress reserved ∧ registry.Extends after ∧
      ∀ directory ∈ directories, ∀ field ∈ directory.fields.values,
        field.node.isKeyedList = true → ∃ name, after.name? (.keys field) = some name := by
  induction directories generalizing registry with
  | nil =>
      obtain ⟨_, rfl⟩ := pure_eq_ok hrun
      exact ⟨h, .refl _, fun _ hmem => nomatch hmem⟩
  | cons directory rest ih =>
      obtain ⟨package, first, hpackage, hrun⟩ := bind_eq_ok hrun
      obtain ⟨hfirst, hextends, hfind⟩ := scoped_packageFor h (lift_state_eq_ok hpackage)
      obtain ⟨_, second, hkeys, hrest⟩ := bind_eq_ok hrun
      obtain ⟨hsecond, hextends', hfields⟩ := scoped_nameKeysOf hroot hslash
        (hdirectories directory List.mem_cons_self) hfirst hfind hkeys
      obtain ⟨hafter, hextends'', hall⟩ :=
        ih (fun other ho => hdirectories other (List.mem_cons_of_mem _ ho)) hsecond hrest
      refine ⟨hafter, (hextends.trans hextends').trans hextends'', fun other ho => ?_⟩
      rcases List.mem_cons.1 ho with rfl | ho
      · intro field hfield hkeyed
        obtain ⟨name, hname⟩ := hfields field hfield hkeyed
        exact ⟨name, hextends''.name? hname⟩
      · exact hall other ho

theorem scoped_cold (tree : Tree) (config : Config) :
    (cold config).Scoped tree config.compressPaths config.enumPackage where
  taken := fun {owner} _ _ h => by cases owner <;> exact nomatch h
  injective := fun {owner} _ place _ _ h => by
    obtain ⟨package, name⟩ := place
    have hname := (place?_eq_some_iff.1 h).2
    cases owner <;> exact nomatch hname
  kept := NameSet.contains_add_self _ _
  ne_reserved := fun h => nomatch h
  enums := ⟨(nomatch ·), (nomatch ·), (nomatch ·)⟩

/-- A registry that has places for everything that a tree gives rise to. -/
structure Ready (config : Config) (tree : Tree) (registry : Registry) : Prop where
  inScope : registry.Scoped tree config.compressPaths config.enumPackage
  placed : ∀ owner ∈ tree.owners config,
    ∃ place, registry.place? config.compressPaths owner = some place

theorem Scoped.exists_place? (h : registry.Scoped tree compress reserved)
    (howner : tree.HasSite owner.site) {name : String} (hname : registry.name? owner = some name) :
    ∃ place, registry.place? compress owner = some place := by
  obtain ⟨package, hpackage, _⟩ := h.taken howner hname
  exact ⟨(package, name), place?_eq_some_iff.2 ⟨hpackage, hname⟩⟩

theorem ready_of_ready_eq_ok {config : Config} (hroot : tree.root.Distinct)
    (hslash : tree.SlashFree) (h : ready config (tree.directories config) = .ok registry) :
    registry.Ready config tree := by
  rw [ready, prepopulate] at h
  split at h
  · rename_i named hrun
    cases h
    obtain ⟨_, middle, hmessages, hkeys⟩ := bind_eq_ok hrun
    obtain ⟨hmiddle, _, hdirectory⟩ :=
      scoped_nameMessages hroot hslash (fun _ => DirectorySet.hasSite_of_mem_collect)
        (scoped_cold tree config) hmessages
    obtain ⟨hnamed, hextends, hkey⟩ := scoped_nameKeys hroot hslash
      (fun _ hd _ => DirectorySet.hasSite_and_holder?_of_mem_collect hd) hmiddle hkeys
    have henums := hnamed.enums
    refine ⟨⟨hnamed.taken, hnamed.injective, hnamed.kept, hnamed.ne_reserved,
      ⟨henums.recorded, henums.named, henums.taken⟩⟩, fun owner howner => ?_⟩
    obtain ⟨directory, hd, hmem⟩ := Tree.mem_owners_iff.1 howner
    rcases Directory.mem_owners_iff.1 hmem with ⟨field, hfield, hkeyed, rfl⟩ | rfl
    · have hvalue : field.2 ∈ directory.fields.values :=
        List.mem_map.2 ⟨field, (List.mem_filter.1 hfield).1, rfl⟩
      obtain ⟨name, hname⟩ := hkey directory hd field.2 hvalue hkeyed
      exact hnamed.exists_place? (DirectorySet.hasSite_and_holder?_of_mem_collect hd hvalue).1 hname
    · obtain ⟨name, hname⟩ := hdirectory directory hd
      exact hnamed.exists_place? (DirectorySet.hasSite_of_mem_collect hd) (hextends.name? hname)
  · cases h

end Registry

end YangToProto

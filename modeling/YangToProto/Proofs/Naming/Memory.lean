import YangToProto.Proofs.Naming.Steps

/-!
# What a registry remembers

A registry is changed by four operations only. `Registry.Grows` says that it has been changed by
some of them, where shared enums were asked for by certain leaves, and a later registry answers
whatever an earlier one has answered (`Registry.Grows.keptBy`).

A step is steady (`Steady`) if it changes the registry in this manner and if, once it has succeeded,
every later registry gives the same value and stays as it is. Steps made of steady steps are steady,
so the outcome of a whole run can be read off the registry in which the run ends.
-/

namespace YangToProto

/-- Leaves that may ask for anything. -/
def Site.anyLeaf (_ : Site) (_ : LeafType) : Prop := True

namespace Registry

variable {registry middle after later : Registry} {compress : Bool} {site list : Site}

/-- Whatever the first registry has given a name, the second one gives the same name. -/
structure KeptBy (registry after : Registry) : Prop where
  packages : registry.packages.Included after.packages
  messages : registry.messages.Included after.messages
  keyMessages : registry.keyMessages.Included after.keyMessages
  enumNames : registry.enumNames.Included after.enumNames

theorem KeptBy.refl (registry : Registry) : registry.KeptBy registry :=
  ⟨.refl _, .refl _, .refl _, .refl _⟩

theorem KeptBy.trans (h : registry.KeptBy middle) (h' : middle.KeptBy after) :
    registry.KeptBy after :=
  ⟨h.packages.trans h'.packages, h.messages.trans h'.messages,
    h.keyMessages.trans h'.keyMessages, h.enumNames.trans h'.enumNames⟩

theorem KeptBy.name? (h : registry.KeptBy after) {owner : Owner} {name : String}
    (hname : registry.name? owner = some name) : after.name? owner = some name := by
  cases owner with
  | directory site => exact h.messages _ _ hname
  | keys list => exact h.keyMessages _ _ hname

theorem keptBy_withPackage {anchor : Anchor} (h : registry.packages.find? anchor = none)
    (package : String) (count : Nat) :
    registry.KeptBy (registry.withPackage anchor package count) :=
  ⟨SortedMap.included_insert h package, .refl _, .refl _, .refl _⟩

theorem keptBy_withName {owner : Owner} (h : registry.name? owner = none)
    (package name : String) (count : Nat) :
    registry.KeptBy (registry.withName owner package name count) := by
  cases owner with
  | directory site => exact ⟨.refl _, SortedMap.included_insert h name, .refl _, .refl _⟩
  | keys list => exact ⟨.refl _, .refl _, SortedMap.included_insert h name, .refl _⟩

theorem keptBy_withEnum {key : String} (h : registry.enumNames.find? key = none)
    (definition : SharedEnum) (count : Nat) :
    registry.KeptBy (registry.withEnum key definition count) :=
  ⟨.refl _, .refl _, .refl _, SortedMap.included_insert h definition.name⟩

/-!
## The four operations
-/

theorem keptBy_packageFor {package : String}
    (h : packageFor compress site registry = (package, after)) :
    registry.KeptBy after ∧ after.packages.find? (site.anchor compress) = some package := by
  rcases packageFor_cases h with ⟨hfind, rfl⟩ | ⟨hnone, _, count, rfl⟩
  · exact ⟨.refl _, hfind⟩
  · exact ⟨keptBy_withPackage hnone package count, SortedMap.find?_insert_self _ _ _⟩

theorem packageFor_of_find? {package : String}
    (h : registry.packages.find? (site.anchor compress) = some package) :
    packageFor compress site registry = (package, registry) := by
  rw [packageFor, h]

theorem keptBy_messageName {name : String}
    (h : messageName compress site registry = (.ok name, after)) :
    registry.KeptBy after ∧ after.messages.find? site.pathText = some name := by
  rcases messageName_cases h with ⟨hfind, rfl⟩ | ⟨hnone, package, middle, count, hpackage, _, rfl⟩
  · exact ⟨.refl _, hfind⟩
  · have hname : middle.name? (.directory site) = none := by
      rcases packageFor_cases hpackage with ⟨_, rfl⟩ | ⟨_, _, _, rfl⟩
      · exact hnone
      · exact hnone
    exact ⟨(keptBy_packageFor hpackage).1.trans (keptBy_withName hname package name count),
      SortedMap.find?_insert_self _ _ _⟩

theorem messageName_of_find? {name : String}
    (h : registry.messages.find? site.pathText = some name) :
    messageName compress site registry = (.ok name, registry) := by
  rw [messageName_eq, h]

theorem eq_of_messageName_error {error : GenerationError}
    (h : messageName compress site registry = (.error error, after)) : after = registry := by
  rw [messageName_eq] at h
  split at h
  · cases h
  · split at h <;> cases h
    rfl

theorem keptBy_keyMessageName {listMessage package name : String}
    (h : keyMessageName list listMessage package registry = (.ok name, after)) :
    registry.KeptBy after ∧ after.keyMessages.find? list.pathText = some name := by
  rcases keyMessageName_cases h with ⟨hfind, rfl⟩ | ⟨hnone, _, count, rfl⟩
  · exact ⟨.refl _, hfind⟩
  · have hname : registry.name? (.keys list) = none := hnone
    exact ⟨keptBy_withName hname package name count, SortedMap.find?_insert_self _ _ _⟩

theorem keyMessageName_of_find? {listMessage package name : String}
    (h : registry.keyMessages.find? list.pathText = some name) :
    keyMessageName list listMessage package registry = (.ok name, registry) := by
  rw [keyMessageName_eq, h]

theorem eq_of_keyMessageName_error {listMessage package : String} {error : GenerationError}
    (h : keyMessageName list listMessage package registry = (.error error, after)) :
    after = registry := by
  rw [keyMessageName_eq] at h
  split at h
  · cases h
  · split at h <;> cases h
    rfl

/-- What holds on when a package or a name is given out holds on when a message is named. -/
theorem messageName_keeps {P : Registry → Prop} (h : P registry)
    (hpackage : P registry → P (packageFor compress site registry).2)
    (hname : ∀ {middle : Registry} package name count, P middle →
      P (middle.withName (.directory site) package name count)) :
    P (messageName compress site registry).2 := by
  cases hrun : messageName compress site registry with
  | mk outcome after =>
      cases outcome with
      | error error =>
          rw [eq_of_messageName_error hrun]
          exact h
      | ok name =>
          rcases messageName_cases hrun with ⟨_, rfl⟩ | ⟨_, package, middle, count, hhome, _, rfl⟩
          · exact h
          · have hmiddle := hpackage h
            rw [hhome] at hmiddle
            exact hname package name count hmiddle

theorem keyMessageName_keeps {P : Registry → Prop} {listMessage package : String} (h : P registry)
    (hname : ∀ name count, P registry → P (registry.withName (.keys list) package name count)) :
    P (keyMessageName list listMessage package registry).2 := by
  cases hrun : keyMessageName list listMessage package registry with
  | mk outcome after =>
      cases outcome with
      | error error =>
          rw [eq_of_keyMessageName_error hrun]
          exact h
      | ok name =>
          rcases keyMessageName_cases hrun with ⟨_, rfl⟩ | ⟨_, _, count, rfl⟩
          · exact h
          · exact hname name count h

theorem keptBy_sharedEnumName {leafPath name : String} {type : LeafType}
    (h : sharedEnumName leafPath type registry = (name, after)) :
    registry.KeptBy after ∧ after.enumNames.find? (type.enumKey leafPath) = some name := by
  rcases sharedEnumName_cases h with ⟨hfind, rfl⟩ | ⟨hnone, _, count, rfl⟩
  · exact ⟨.refl _, hfind⟩
  · exact ⟨keptBy_withEnum hnone ⟨name, leafPath, type⟩ count, SortedMap.find?_insert_self _ _ _⟩

theorem sharedEnumName_of_find? {leafPath name : String} {type : LeafType}
    (h : registry.enumNames.find? (type.enumKey leafPath) = some name) :
    sharedEnumName leafPath type registry = (name, registry) := by
  rw [sharedEnumName, h]

/-!
## Growth
-/

/-- The registry is the first one or has been made from it by naming operations. Shared enums were
asked for by the given leaves only. -/
inductive Grows (asks : Site → LeafType → Prop) (start : Registry) : Registry → Prop where
  | refl : Grows asks start start
  | package {registry : Registry} (h : Grows asks start registry) (compress : Bool) (site : Site) :
      Grows asks start (packageFor compress site registry).2
  | message {registry : Registry} (h : Grows asks start registry) (compress : Bool) (site : Site) :
      Grows asks start (messageName compress site registry).2
  | keyMessage {registry : Registry} (h : Grows asks start registry) (list : Site)
      (listMessage package : String) :
      Grows asks start (keyMessageName list listMessage package registry).2
  | sharedEnum {registry : Registry} (h : Grows asks start registry) {leaf : Site}
      {type : LeafType} (hasks : asks leaf type) :
      Grows asks start (sharedEnumName leaf.pathText type registry).2

variable {asks : Site → LeafType → Prop} {start : Registry}

theorem Grows.trans (h : start.Grows asks middle) (h' : middle.Grows asks after) :
    start.Grows asks after := by
  induction h' with
  | refl => exact h
  | package _ compress site ih => exact ih.package compress site
  | message _ compress site ih => exact ih.message compress site
  | keyMessage _ list listMessage package ih => exact ih.keyMessage list listMessage package
  | sharedEnum _ hasks ih => exact ih.sharedEnum hasks

theorem Grows.keptBy (h : start.Grows asks after) : start.KeptBy after := by
  induction h with
  | refl => exact .refl _
  | package _ compress site ih => exact ih.trans (keptBy_packageFor rfl).1
  | @message registry _ compress site ih =>
      refine ih.trans ?_
      cases hrun : messageName compress site registry with
      | mk outcome ended =>
          cases outcome with
          | ok name => exact (keptBy_messageName hrun).1
          | error error =>
              rw [eq_of_messageName_error hrun]
              exact .refl _
  | @keyMessage registry _ list listMessage package ih =>
      refine ih.trans ?_
      cases hrun : keyMessageName list listMessage package registry with
      | mk outcome ended =>
          cases outcome with
          | ok name => exact (keptBy_keyMessageName hrun).1
          | error error =>
              rw [eq_of_keyMessageName_error hrun]
              exact .refl _
  | sharedEnum _ _ ih => exact ih.trans (keptBy_sharedEnumName rfl).1

end Registry

/-!
## Steady steps
-/

theorem drafting_of_eq_ok {α : Type} {step : Naming α} {registry after : Registry} {value : α}
    (h : step registry = (.ok value, after)) : step.drafting registry = (.ok value, after) := by
  change ((step registry).1.mapError fun error => [error], (step registry).2) = _
  rw [h]
  rfl

/-- The step only lets the registry grow. Where it succeeds, every later registry gives the same
value and stays as it is. -/
structure Steady {ε α : Type} (asks : Site → LeafType → Prop)
    (step : ExceptT ε (StateM Registry) α) : Prop where
  grows : ∀ registry : Registry, registry.Grows asks (step registry).2
  again : ∀ {registry after later : Registry} {value : α},
    step registry = (.ok value, after) → after.KeptBy later → step later = (.ok value, later)

namespace Steady

variable {ε α β : Type} {asks : Site → LeafType → Prop} {registry after later : Registry}

theorem pure (value : α) : Steady asks (pure value : ExceptT ε (StateM Registry) α) where
  grows := fun _ => .refl
  again := fun h _ => by
    obtain ⟨rfl, _⟩ := pure_eq_ok h
    rfl

theorem throw (fault : ε) : Steady asks (throw fault : ExceptT ε (StateM Registry) α) where
  grows := fun _ => .refl
  again := fun h _ => absurd h throw_ne_ok

theorem lift_except (outcome : Except ε α) :
    Steady asks (liftM outcome : ExceptT ε (StateM Registry) α) where
  grows := fun _ => .refl
  again := fun h _ => by
    obtain ⟨rfl, _⟩ := lift_except_eq_ok h
    rfl

theorem drafting {step : Naming α} (h : Steady asks step) : Steady asks step.drafting where
  grows := h.grows
  again := fun hrun hkept => drafting_of_eq_ok (h.again (drafting_eq_ok hrun) hkept)

theorem bind {step : ExceptT ε (StateM Registry) α} {next : α → ExceptT ε (StateM Registry) β}
    (h : Steady asks step) (h' : ∀ value, Steady asks (next value)) :
    Steady asks (step >>= next) where
  grows := fun registry => by
    have hstep := h.grows registry
    rw [bind_apply]
    cases hrun : step registry with
    | mk outcome middle =>
        rw [hrun] at hstep
        cases outcome with
        | ok value => exact hstep.trans ((h' value).grows middle)
        | error fault => exact hstep
  again := fun {registry after later result} hrun hkept => by
    obtain ⟨value, middle, hfirst, hsecond⟩ := bind_eq_ok hrun
    have hgrows := (h' value).grows middle
    rw [hsecond] at hgrows
    rw [bind_apply, h.again hfirst (hgrows.keptBy.trans hkept)]
    exact (h' value).again hsecond hkept

/-- A step that ends in a registry which the first one keeps has not changed it. -/
theorem eq_of_keptBy {step : ExceptT ε (StateM Registry) α} (h : Steady asks step) {value : α}
    (hrun : step registry = (.ok value, after)) (hkept : after.KeptBy registry) :
    after = registry := by
  have hsame := h.again hrun hkept
  rw [hrun, Prod.mk.injEq] at hsame
  exact hsame.2

end Steady

namespace Registry

variable {ε : Type} {asks : Site → LeafType → Prop}

theorem steady_packageFor (compress : Bool) (site : Site) :
    Steady asks (liftM (packageFor compress site) :
      ExceptT ε (StateM Registry) String) where
  grows := fun _ => Grows.refl.package compress site
  again := fun {_ _ later _} hrun hkept => by
    have hfind := (keptBy_packageFor (lift_state_eq_ok hrun)).2
    change (Except.ok (packageFor compress site later).1,
      (packageFor compress site later).2) = _
    rw [packageFor_of_find? (hkept.packages _ _ hfind)]

theorem steady_messageName (compress : Bool) (site : Site) :
    Steady asks (messageName compress site) where
  grows := fun _ => Grows.refl.message compress site
  again := fun hrun hkept => by
    have hfind := (keptBy_messageName hrun).2
    exact messageName_of_find? (hkept.messages _ _ hfind)

theorem steady_keyMessageName (list : Site) (listMessage package : String) :
    Steady asks (keyMessageName list listMessage package) where
  grows := fun _ => Grows.refl.keyMessage list listMessage package
  again := fun hrun hkept => by
    have hfind := (keptBy_keyMessageName hrun).2
    exact keyMessageName_of_find? (hkept.keyMessages _ _ hfind)

/-!
## Naming what directories need
-/

theorem steady_nameMessages (compress : Bool) (directories : List Directory) :
    Steady asks (nameMessages compress directories) := by
  induction directories with
  | nil => exact .pure _
  | cons directory rest ih => exact .bind (steady_messageName _ _) fun _ => ih

theorem steady_nameKeysOf (compress : Bool) (package : String) (fields : List Site) :
    Steady asks (nameKeysOf compress package fields) := by
  induction fields with
  | nil => exact .pure _
  | cons field rest ih =>
      rw [nameKeysOf]
      split
      · exact .bind (steady_messageName _ _) fun _ =>
          .bind (steady_keyMessageName _ _ _) fun _ => ih
      · exact ih

theorem steady_nameKeys (compress : Bool) (directories : List Directory) :
    Steady asks (nameKeys compress directories) := by
  induction directories with
  | nil => exact .pure _
  | cons directory rest ih =>
      exact .bind (steady_packageFor _ _) fun _ => .bind (steady_nameKeysOf _ _ _) fun _ => ih

/-- The registry that a run starts from is a cold one that has grown, and then was frozen. No leaf
has asked for a shared enum until then. -/
theorem grows_ready {config : Config} {set : DirectorySet} {registry : Registry}
    (h : ready config set = .ok registry) :
    ∃ named, (cold config).Grows (fun _ _ => False) named ∧
      registry = { named with frozen := true } := by
  have hsteady : Steady (fun _ _ => False) (do
      nameMessages config.compressPaths set.directories
      nameKeys config.compressPaths set.directories) :=
    .bind (steady_nameMessages _ _) fun _ => steady_nameKeys _ _
  have hgrows := hsteady.grows (cold config)
  rw [ready, prepopulate] at h
  split at h
  · rename_i named hrun
    rw [hrun] at hgrows
    cases h
    exact ⟨named, hgrows, rfl⟩
  · cases h

end Registry

end YangToProto

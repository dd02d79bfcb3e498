import YangToProto.Proofs.Naming.SharedEnums

/-!
# Registries that serve a run

A registry can name all messages that some directories need if it is not frozen, or if it has all
those names already (`Registry.Serves`). So the cold registry serves every run, and naming what the
directories need never fails and gives a registry that serves them too (`exists_ready`).
-/

namespace YangToProto

namespace Registry

variable {asks : Site → LeafType → Prop} {registry after start : Registry}
  {compress : Bool} {set : DirectorySet} {directory : Directory} {field : Site}

/-- The registry is not frozen, or everything that the directories need has a name. -/
def Serves (set : DirectorySet) (registry : Registry) : Prop :=
  registry.frozen = true →
    (∀ directory ∈ set.directories,
      ∃ name, registry.messages.find? directory.site.pathText = some name) ∧
    ∀ directory ∈ set.directories, ∀ field ∈ directory.fields.values,
      field.node.isKeyedList = true →
      ∃ name, registry.keyMessages.find? field.pathText = some name

theorem frozen_packageFor (compress : Bool) (site : Site) (registry : Registry) :
    (packageFor compress site registry).2.frozen = registry.frozen := by
  rw [packageFor]
  split <;> rfl

theorem Grows.frozen_eq (h : start.Grows asks after) : after.frozen = start.frozen := by
  induction h with
  | refl => rfl
  | package _ compress site ih => exact (frozen_packageFor compress site _).trans ih
  | @message registry _ compress site ih =>
      rw [← ih, messageName_eq]
      split
      · rfl
      · split
        · rfl
        · exact frozen_packageFor compress site registry
  | @keyMessage registry _ list listMessage package ih =>
      rw [← ih, keyMessageName_eq]
      split
      · rfl
      · split <;> rfl
  | @sharedEnum registry _ leaf type _ ih =>
      rw [← ih, sharedEnumName]
      split <;> rfl

theorem Serves.of_grows (h : registry.Serves set) (hgrows : registry.Grows asks after) :
    after.Serves set := by
  intro hfrozen
  rw [hgrows.frozen_eq] at hfrozen
  obtain ⟨hmessages, hkeys⟩ := h hfrozen
  refine ⟨fun directory hd => ?_, fun directory hd field hfield hkeyed => ?_⟩
  · obtain ⟨name, hname⟩ := hmessages directory hd
    exact ⟨name, hgrows.keptBy.messages _ _ hname⟩
  · obtain ⟨name, hname⟩ := hkeys directory hd field hfield hkeyed
    exact ⟨name, hgrows.keptBy.keyMessages _ _ hname⟩

theorem Serves.messageName (h : registry.Serves set) (hd : directory ∈ set.directories)
    (compress : Bool) :
    ∃ name, (messageName compress directory.site registry).1 = .ok name := by
  rw [messageName_eq]
  cases hfind : registry.messages.find? directory.site.pathText with
  | some name => exact ⟨name, rfl⟩
  | none =>
      cases hfrozen : registry.frozen with
      | false => exact ⟨_, rfl⟩
      | true =>
          obtain ⟨name, hname⟩ := (h hfrozen).1 directory hd
          rw [hfind] at hname
          cases hname

theorem Serves.keyMessageName (h : registry.Serves set) (hd : directory ∈ set.directories)
    (hfield : field ∈ directory.fields.values) (hkeyed : field.node.isKeyedList = true)
    (listMessage package : String) :
    ∃ name, (keyMessageName field listMessage package registry).1 = .ok name := by
  rw [keyMessageName_eq]
  cases hfind : registry.keyMessages.find? field.pathText with
  | some name => exact ⟨name, rfl⟩
  | none =>
      cases hfrozen : registry.frozen with
      | false => exact ⟨_, rfl⟩
      | true =>
          obtain ⟨name, hname⟩ := (h hfrozen).2 directory hd field hfield hkeyed
          rw [hfind] at hname
          cases hname

/-!
## Naming what directories need
-/

/-- While a registry is not frozen, it names every message. -/
theorem exists_messageName (hfrozen : registry.frozen = false) (compress : Bool) (site : Site) :
    ∃ name after, messageName compress site registry = (.ok name, after) ∧
      after.frozen = false := by
  rw [messageName_eq, hfrozen]
  cases hfind : registry.messages.find? site.pathText with
  | some name => exact ⟨name, registry, rfl, hfrozen⟩
  | none => exact ⟨_, _, rfl, (frozen_packageFor compress site registry).trans hfrozen⟩

theorem exists_keyMessageName (hfrozen : registry.frozen = false) (list : Site)
    (listMessage package : String) :
    ∃ name after, keyMessageName list listMessage package registry = (.ok name, after) ∧
      after.frozen = false := by
  rw [keyMessageName_eq, hfrozen]
  cases hfind : registry.keyMessages.find? list.pathText with
  | some name => exact ⟨name, registry, rfl, hfrozen⟩
  | none => exact ⟨_, _, rfl, hfrozen⟩

theorem exists_nameMessages (hfrozen : registry.frozen = false) (directories : List Directory) :
    ∃ after, nameMessages compress directories registry = (.ok (), after) ∧
      after.frozen = false ∧ ∀ directory ∈ directories,
        ∃ name, after.messages.find? directory.site.pathText = some name := by
  induction directories generalizing registry with
  | nil => exact ⟨registry, rfl, hfrozen, fun _ hmem => absurd hmem List.not_mem_nil⟩
  | cons directory rest ih =>
      obtain ⟨name, middle, hname, hmiddle⟩ := exists_messageName hfrozen compress directory.site
      obtain ⟨after, hrest, hafter, hnames⟩ := ih hmiddle
      have hgrows : middle.Grows Site.anyLeaf (nameMessages compress rest middle).2 :=
        (steady_nameMessages compress rest).grows middle
      rw [hrest] at hgrows
      refine ⟨after, by rw [nameMessages, bind_apply, hname]; exact hrest, hafter,
        fun other ho => ?_⟩
      rcases List.mem_cons.1 ho with rfl | ho
      · exact ⟨name, hgrows.keptBy.messages _ _ (keptBy_messageName hname).2⟩
      · exact hnames other ho

theorem exists_nameKeysOf (hfrozen : registry.frozen = false) (package : String)
    (fields : List Site) :
    ∃ after, nameKeysOf compress package fields registry = (.ok (), after) ∧
      after.frozen = false ∧ ∀ field ∈ fields, field.node.isKeyedList = true →
        ∃ name, after.keyMessages.find? field.pathText = some name := by
  induction fields generalizing registry with
  | nil => exact ⟨registry, rfl, hfrozen, fun _ hmem => absurd hmem List.not_mem_nil⟩
  | cons field rest ih =>
      rw [nameKeysOf]
      by_cases hkeyed : field.node.isKeyedList = true
      · obtain ⟨listMessage, first, hlist, hfirst⟩ := exists_messageName hfrozen compress field
        obtain ⟨name, second, hname, hsecond⟩ :=
          exists_keyMessageName hfirst field listMessage package
        obtain ⟨after, hrest, hafter, hnames⟩ := ih hsecond
        have hgrows : second.Grows Site.anyLeaf (nameKeysOf compress package rest second).2 :=
          (steady_nameKeysOf compress package rest).grows second
        rw [hrest] at hgrows
        refine ⟨after, ?_, hafter, fun other ho hkeyed => ?_⟩
        · rw [if_pos hkeyed, bind_apply, hlist]
          dsimp only
          rw [bind_apply, hname]
          exact hrest
        · rcases List.mem_cons.1 ho with rfl | ho
          · exact ⟨name, hgrows.keptBy.keyMessages _ _ (keptBy_keyMessageName hname).2⟩
          · exact hnames other ho hkeyed
      · obtain ⟨after, hrest, hafter, hnames⟩ := ih hfrozen
        refine ⟨after, by rw [if_neg hkeyed]; exact hrest, hafter, fun other ho hother => ?_⟩
        rcases List.mem_cons.1 ho with rfl | ho
        · exact absurd hother hkeyed
        · exact hnames other ho hother

theorem exists_nameKeys (hfrozen : registry.frozen = false) (directories : List Directory) :
    ∃ after, nameKeys compress directories registry = (.ok (), after) ∧
      ∀ directory ∈ directories, ∀ field ∈ directory.fields.values,
        field.node.isKeyedList = true →
        ∃ name, after.keyMessages.find? field.pathText = some name := by
  induction directories generalizing registry with
  | nil => exact ⟨registry, rfl, fun _ hmem => absurd hmem List.not_mem_nil⟩
  | cons directory rest ih =>
      cases hpackage : packageFor compress directory.site registry with
      | mk package first =>
          have hfirst := frozen_packageFor compress directory.site registry
          rw [hpackage, hfrozen] at hfirst
          obtain ⟨second, hkeys, hsecond, hnames⟩ :=
            exists_nameKeysOf hfirst package directory.fields.values
          obtain ⟨after, hrest, hothers⟩ := ih hsecond
          have hgrows : second.Grows Site.anyLeaf (nameKeys compress rest second).2 :=
            (steady_nameKeys compress rest).grows second
          rw [hrest] at hgrows
          refine ⟨after, ?_, fun other ho field hfield hkeyed => ?_⟩
          · rw [nameKeys, bind_apply, lift_state_apply, hpackage]
            dsimp only
            rw [bind_apply, hkeys]
            exact hrest
          · rcases List.mem_cons.1 ho with rfl | ho
            · obtain ⟨name, hname⟩ := hnames field hfield hkeyed
              exact ⟨name, hgrows.keptBy.keyMessages _ _ hname⟩
            · exact hothers other ho field hfield hkeyed

/-- Naming what the directories need does not fail, touches no shared enum, and leaves a registry
that serves the directories. -/
theorem exists_ready (config : Config) (set : DirectorySet) :
    ∃ registry, ready config set = .ok registry ∧ registry.Serves set ∧
      (cold config).SameEnums registry := by
  have hcold : (cold config).frozen = false := rfl
  obtain ⟨middle, hmessages, hmiddle, hnames⟩ := exists_nameMessages hcold set.directories
  obtain ⟨after, hkeys, hkeyNames⟩ := exists_nameKeys hmiddle set.directories
  have hgrows : middle.Grows Site.anyLeaf
      (nameKeys config.compressPaths set.directories middle).2 :=
    (steady_nameKeys _ _).grows middle
  rw [hkeys] at hgrows
  have hready : ready config set = .ok { after with frozen := true } := by
    rw [ready, prepopulate, bind_apply, hmessages]
    dsimp only
    rw [hkeys]
  obtain ⟨named, hnamed, hsame⟩ := grows_ready hready
  refine ⟨_, hready, fun _ => ⟨fun directory hd => ?_, hkeyNames⟩, ?_⟩
  · obtain ⟨name, hname⟩ := hnames directory hd
    exact ⟨name, hgrows.keptBy.messages _ _ hname⟩
  · rw [hsame]
    exact hnamed.sameEnums.trans ⟨rfl, rfl, rfl⟩

theorem serves_cold (config : Config) (set : DirectorySet) : (cold config).Serves set :=
  fun hfrozen => absurd hfrozen Bool.false_ne_true

end Registry

end YangToProto

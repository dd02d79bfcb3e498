import YangToProto.Proofs.Generation.FieldTypes
import YangToProto.Proofs.Naming.Memory

/-!
# Where shared enums come from

A registry records a shared enum with the leaf that asks for it first. While it grows, every name
under which an enum is remembered leads back to a definition with that key, and every definition to
a leaf that has asked for it (`Registry.Grows.enumsTraced`). Naming everything in advance asks for
none (`Registry.enumsTraced_ready`).
-/

namespace YangToProto

namespace Registry

variable {asks : Site → LeafType → Prop} {registry start after : Registry}

/-- Each name given to a shared enum leads to a definition with the key of that name, and each
definition was asked for by a leaf. -/
structure EnumsTraced (asks : Site → LeafType → Prop) (registry : Registry) : Prop where
  recorded : registry.EnumsRecorded
  traced : ∀ {key name}, registry.enumNames.find? key = some name →
    ∃ definition, registry.sharedEnums.find? name = some definition ∧
      definition.type.enumKey definition.sourcePath = key
  asked : ∀ {name definition}, registry.sharedEnums.find? name = some definition →
    ∃ leaf, asks leaf definition.type ∧ leaf.pathText = definition.sourcePath

structure SameEnums (registry after : Registry) : Prop where
  names : after.enumNames = registry.enumNames
  definitions : after.sharedEnums = registry.sharedEnums
  scope : after.enumScope = registry.enumScope

theorem SameEnums.refl (registry : Registry) : registry.SameEnums registry := ⟨rfl, rfl, rfl⟩

theorem SameEnums.trans {middle : Registry} (h : registry.SameEnums middle)
    (h' : middle.SameEnums after) : registry.SameEnums after :=
  ⟨h'.names.trans h.names, h'.definitions.trans h.definitions, h'.scope.trans h.scope⟩

theorem EnumsTraced.of_same (h : registry.EnumsTraced asks) (hsame : registry.SameEnums after) :
    after.EnumsTraced asks := by
  obtain ⟨hnames, hdefinitions, hscope⟩ := hsame
  refine ⟨⟨?_, ?_, ?_⟩, ?_, ?_⟩
  · rw [hnames, hdefinitions]
    exact h.recorded.recorded
  · rw [hdefinitions]
    exact h.recorded.named
  · rw [hdefinitions, hscope]
    exact h.recorded.taken
  · rw [hnames, hdefinitions]
    exact h.traced
  · rw [hdefinitions]
    exact h.asked

theorem sameEnums_packageFor (compress : Bool) (site : Site) (registry : Registry) :
    registry.SameEnums (packageFor compress site registry).2 := by
  cases hrun : packageFor compress site registry with
  | mk package after =>
      rcases packageFor_cases hrun with ⟨_, rfl⟩ | ⟨_, _, _, rfl⟩
      · exact .refl _
      · exact ⟨rfl, rfl, rfl⟩

theorem sameEnums_withName (registry : Registry) (owner : Owner) (package name : String)
    (count : Nat) : registry.SameEnums (registry.withName owner package name count) := by
  cases owner with
  | directory site => exact ⟨rfl, rfl, rfl⟩
  | keys list => exact ⟨rfl, rfl, rfl⟩

theorem sameEnums_messageName (compress : Bool) (site : Site) (registry : Registry) :
    registry.SameEnums (messageName compress site registry).2 :=
  messageName_keeps (.refl registry) (·.trans (sameEnums_packageFor compress site registry))
    fun package name count h => h.trans (sameEnums_withName _ (.directory site) package name count)

theorem sameEnums_keyMessageName (list : Site) (listMessage package : String)
    (registry : Registry) :
    registry.SameEnums (keyMessageName list listMessage package registry).2 :=
  keyMessageName_keeps (.refl registry) fun name count h =>
    h.trans (sameEnums_withName registry (.keys list) package name count)

theorem EnumsTraced.sharedEnumName (h : registry.EnumsTraced asks) {leaf : Site} {type : LeafType}
    (hasks : asks leaf type) :
    (sharedEnumName leaf.pathText type registry).2.EnumsTraced asks := by
  cases hrun : Registry.sharedEnumName leaf.pathText type registry with
  | mk name after =>
      rcases sharedEnumName_cases hrun with ⟨_, rfl⟩ | ⟨_, hfree, count, rfl⟩
      · exact h
      · have hkept : registry.sharedEnums.Included (registry.withEnum (type.enumKey leaf.pathText)
            ⟨name, leaf.pathText, type⟩ count).sharedEnums :=
          (extends_withEnum h.recorded hfree _ count).sharedEnums
        refine ⟨h.recorded.withEnum _ _, fun {key found} hfind => ?_,
          fun {found definition} hfind => ?_⟩
        · rw [withEnum, SortedMap.find?_insert] at hfind
          split at hfind
          · rename_i hkey
            cases hfind
            exact ⟨_, SortedMap.find?_insert_self _ _ _, hkey.symm⟩
          · obtain ⟨definition, hdefinition, hkey⟩ := h.traced hfind
            exact ⟨definition, hkept _ _ hdefinition, hkey⟩
        · rw [withEnum, SortedMap.find?_insert] at hfind
          split at hfind
          · cases hfind
            exact ⟨leaf, hasks, rfl⟩
          · exact h.asked hfind

theorem Grows.enumsTraced (h : start.Grows asks after) (hstart : start.EnumsTraced asks) :
    after.EnumsTraced asks := by
  induction h with
  | refl => exact hstart
  | package _ compress site ih => exact ih.of_same (sameEnums_packageFor compress site _)
  | message _ compress site ih => exact ih.of_same (sameEnums_messageName compress site _)
  | keyMessage _ list listMessage package ih =>
      exact ih.of_same (sameEnums_keyMessageName list listMessage package _)
  | sharedEnum _ hasks ih => exact ih.sharedEnumName hasks

/-- Where no leaf may ask, the shared enums stay as they are. -/
theorem Grows.sameEnums (h : start.Grows (fun _ _ => False) after) : start.SameEnums after := by
  induction h with
  | refl => exact .refl _
  | package _ compress site ih => exact ih.trans (sameEnums_packageFor compress site _)
  | message _ compress site ih => exact ih.trans (sameEnums_messageName compress site _)
  | keyMessage _ list listMessage package ih =>
      exact ih.trans (sameEnums_keyMessageName list listMessage package _)
  | sharedEnum _ hasks _ => exact hasks.elim

theorem enumsTraced_cold (asks : Site → LeafType → Prop) (config : Config) :
    (cold config).EnumsTraced asks :=
  ⟨⟨(nomatch ·), (nomatch ·), (nomatch ·)⟩, (nomatch ·), (nomatch ·)⟩

theorem enumsTraced_ready (asks : Site → LeafType → Prop) {config : Config} {set : DirectorySet}
    (h : ready config set = .ok registry) : registry.EnumsTraced asks := by
  obtain ⟨named, hgrows, rfl⟩ := grows_ready h
  exact ((enumsTraced_cold asks config).of_same hgrows.sameEnums).of_same ⟨rfl, rfl, rfl⟩

end Registry

end YangToProto

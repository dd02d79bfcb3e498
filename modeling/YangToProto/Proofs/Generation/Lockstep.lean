import YangToProto.Proofs.Generation.TwoRuns
import YangToProto.Proofs.Naming.Serving

/-!
# Runs in step

Which names a registry hands out makes no difference to whether a run succeeds, to its errors, to
its shared enums or to the ledger that it leaves. Two runs that start with the same ledger go in
step (`DirectorySet.lockstep_records`) as long as both registries know the names of all messages or
can still give them (`Registry.Serves`).
-/

namespace YangToProto

namespace Registry

variable {ε : Type} {registry other : Registry} {set : DirectorySet}

theorem SameEnums.symm (h : registry.SameEnums other) : other.SameEnums registry :=
  ⟨h.names.symm, h.definitions.symm, h.scope.symm⟩

/-- The same shared enums give the same name, and are the same afterwards. -/
theorem SameEnums.sharedEnumName (h : registry.SameEnums other) (leafPath : String)
    (type : LeafType) :
    (sharedEnumName leafPath type registry).1 = (sharedEnumName leafPath type other).1 ∧
      (sharedEnumName leafPath type registry).2.SameEnums
        (sharedEnumName leafPath type other).2 := by
  rw [Registry.sharedEnumName, Registry.sharedEnumName, h.names]
  cases hfind : registry.enumNames.find? (type.enumKey leafPath) with
  | some name => exact ⟨rfl, h⟩
  | none =>
      dsimp only
      rw [h.scope, h.definitions]
      exact ⟨rfl, rfl, rfl, rfl⟩

/-- Both registries serve the directories. -/
structure BothServe (set : DirectorySet) (registry other : Registry) : Prop where
  serves : registry.Serves set
  serves' : other.Serves set

/-- Both registries serve the directories, and they have the same shared enums. -/
structure InStep (set : DirectorySet) (registry other : Registry) : Prop extends
    BothServe set registry other where
  enums : registry.SameEnums other

/-- Steps that give names, whichever, keep registries serving. -/
theorem lockstep_of_name {step step' : ExceptT ε (StateM Registry) String}
    (hsteady : Steady Site.anyLeaf step) (hsteady' : Steady Site.anyLeaf step')
    (hname : ∀ {registry : Registry}, registry.Serves set → ∃ name, (step registry).1 = .ok name)
    (hname' : ∀ {registry : Registry}, registry.Serves set →
      ∃ name, (step' registry).1 = .ok name) :
    Lockstep (BothServe set) Unrelated step step' := by
  refine ⟨fun {registry other} h => ?_⟩
  obtain ⟨name, hfirst⟩ := hname h.serves
  obtain ⟨name', hsecond⟩ := hname' h.serves'
  rw [hfirst, hsecond]
  exact ⟨.ok trivial, h.serves.of_grows (hsteady.grows registry),
    h.serves'.of_grows (hsteady'.grows other)⟩

/-- Registries that serve the directories go on to do so, whatever they are asked for. -/
theorem accord_bothServe (compress : Bool) (set : DirectorySet) :
    Accord compress set.Needs (BothServe set) Unrelated where
  package := fun {site} _ {_ _} h =>
    have hsteady : Steady Site.anyLeaf
        (liftM (packageFor compress site) : Drafting String) := steady_packageFor compress site
    ((lockstep_of_name hsteady hsteady (fun _ => ⟨_, rfl⟩) fun _ => ⟨_, rfl⟩).run h).2
  message := by
    rintro _ ⟨directory, hd, rfl⟩
    exact lockstep_of_name (steady_messageName _ _) (steady_messageName _ _)
      (·.messageName hd compress) (·.messageName hd compress)
  keyMessage := by
    rintro list ⟨hkeyed, directory, hd, hlist⟩ listMessage listMessage' _ package package'
    exact lockstep_of_name (steady_keyMessageName _ _ _) (steady_keyMessageName _ _ _)
      (·.keyMessageName hd hlist hkeyed _ _) (·.keyMessageName hd hlist hkeyed _ _)
  shared := fun leaf type {registry other} h => by
    have hgrows : ∀ registry : Registry,
        registry.Grows Site.anyLeaf (sharedEnumName leaf.pathText type registry).2 :=
      fun _ => .sharedEnum .refl trivial
    exact ⟨h.serves.of_grows (hgrows registry), h.serves'.of_grows (hgrows other)⟩

/-- Steps that keep registries serving keep them in step if they leave the shared enums alone. -/
theorem lockstep_inStep {step step' : ExceptT ε (StateM Registry) String}
    (h : Lockstep (BothServe set) Unrelated step step')
    (hsame : ∀ registry : Registry, registry.SameEnums (step registry).2)
    (hsame' : ∀ registry : Registry, registry.SameEnums (step' registry).2) :
    Lockstep (InStep set) Unrelated step step' where
  run := fun {registry other} hrelated => by
    obtain ⟨houtcome, hserve⟩ := h.run hrelated.toBothServe
    exact ⟨houtcome, hserve, ((hsame registry).symm.trans hrelated.enums).trans (hsame' other)⟩

/-- Registries in step stay so, whatever names they give to what the directories need. -/
theorem accord_inStep (compress : Bool) (set : DirectorySet) :
    Accord compress set.Needs (InStep set) Unrelated where
  package := fun {site} h {registry other} hrelated =>
    ⟨(accord_bothServe compress set).package h hrelated.toBothServe,
      ((sameEnums_packageFor compress site registry).symm.trans hrelated.enums).trans
        (sameEnums_packageFor compress site other)⟩
  message := fun {site} h => lockstep_inStep ((accord_bothServe compress set).message h)
    (sameEnums_messageName compress site) (sameEnums_messageName compress site)
  keyMessage := fun {list} h {listMessage listMessage'} hname package package' =>
    lockstep_inStep ((accord_bothServe compress set).keyMessage h hname package package')
      (sameEnums_keyMessageName list listMessage package)
      (sameEnums_keyMessageName list listMessage' package')
  shared := fun leaf type {_ _} h =>
    ⟨(accord_bothServe compress set).shared leaf type h.toBothServe,
      (h.enums.sharedEnumName leaf.pathText type).2⟩

end Registry

abbrev GenerationState.InStep (set : DirectorySet) : GenerationState → GenerationState → Prop :=
  GenerationState.Related (Registry.InStep set)

/-- Both runs succeed or both have the same errors. Their shared enums and ledgers are the same. -/
theorem DirectorySet.lockstep_records {config : Config} {tree : Tree}
    {state other : GenerationState} (h : state.InStep (tree.directories config) other) :
    Alike (fun records others => records.enums = others.enums)
        ((tree.directories config).records config state).1
        ((tree.directories config).records config other).1 ∧
      ((tree.directories config).records config state).2.InStep (tree.directories config)
        ((tree.directories config).records config other).2 := by
  obtain ⟨halike, hafter⟩ := lockstep_of_accord rfl (Registry.accord_inStep _ _)
    (fun hsame => hsame.enums.definitions) h
  exact ⟨halike.imp fun _ _ hsame => hsame.2.symm, hafter⟩

end YangToProto

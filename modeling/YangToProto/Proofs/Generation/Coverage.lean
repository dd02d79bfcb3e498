import YangToProto.Proofs.Generation.FirstUse
import YangToProto.Proofs.Generation.Regeneration

/-!
# What naming in advance covers

The registry that a run starts from has been filled by going through the directories and the keyed
lists among their fields. Drafting goes another way, from message to message along the fields, but
asks for nothing else (`DirectorySet.Needs`). So in a `Registry.Complete` registry every name and
package is looked up, nothing but shared enums is added, and no run fails for want of a name
(`Tree.names_in_advance`).
-/

namespace YangToProto

variable {compress : Bool} {set : DirectorySet} {registry after : Registry}

namespace Registry

/-- A frozen registry in which all messages that directories need have names and packages. -/
structure Complete (compress : Bool) (set : DirectorySet) (registry : Registry) : Prop where
  frozen : registry.frozen = true
  serves : registry.Serves set
  packages : ∀ directory ∈ set.directories, ∃ package,
    registry.packages.find? (directory.site.anchor compress) = some package

theorem Complete.of_sameNames (h : registry.Complete compress set)
    (hsame : registry.SameNames after) (hfrozen : after.frozen = registry.frozen) :
    after.Complete compress set := by
  refine ⟨hfrozen.trans h.frozen, fun _ => ?_, fun directory hd => ?_⟩
  · obtain ⟨hmessages, hkeys⟩ := h.serves h.frozen
    rw [hsame.messages, hsame.keyMessages]
    exact ⟨hmessages, hkeys⟩
  · rw [hsame.packages]
    exact h.packages directory hd

/-- Naming key wrappers finds the package of every directory on its way. -/
theorem exists_package_of_nameKeys {directories : List Directory}
    (hrun : nameKeys compress directories registry = (.ok (), after)) :
    ∀ directory ∈ directories, ∃ package,
      after.packages.find? (directory.site.anchor compress) = some package := by
  induction directories generalizing registry with
  | nil => exact fun _ hmem => absurd hmem List.not_mem_nil
  | cons directory rest ih =>
      obtain ⟨package, first, hpackage, hrun⟩ := bind_eq_ok hrun
      obtain ⟨_, second, hkeys, hrest⟩ := bind_eq_ok hrun
      have hsteady : Steady Site.anyLeaf (do
          nameKeysOf compress package directory.fields.values
          nameKeys compress rest) :=
        .bind (steady_nameKeysOf _ _ _) fun _ => steady_nameKeys _ _
      have hgrows := hsteady.grows first
      rw [hrun] at hgrows
      intro other ho
      rcases List.mem_cons.1 ho with rfl | ho
      · have hfound := (keptBy_packageFor (lift_state_eq_ok hpackage)).2
        exact ⟨package, hgrows.keptBy.packages _ _ hfound⟩
      · exact ih hrest other ho

/-- Naming in advance does not fail and leaves nothing out. -/
theorem exists_complete (config : Config) (set : DirectorySet) :
    ∃ registry, ready config set = .ok registry ∧
      registry.Complete config.compressPaths set := by
  obtain ⟨registry, hready, hserves, _⟩ := exists_ready config set
  refine ⟨registry, hready, ?_⟩
  rw [ready, prepopulate] at hready
  split at hready
  · rename_i named hrun
    cases hready
    obtain ⟨_, middle, _, hkeys⟩ := bind_eq_ok hrun
    have hpackages := exists_package_of_nameKeys hkeys
    exact ⟨rfl, hserves, hpackages⟩
  · cases hready

end Registry

/-!
## Drafts
-/

theorem LeafStep.lacksNoName {asks : Site → LeafType → Prop} {α : Type} {step : Naming α}
    (h : LeafStep asks step) (registry : Registry) : LacksNoName (step registry).1 := by
  induction h generalizing registry with
  | pure value => exact lacksNoName_ok value
  | throw h => exact lacksNoName_error h
  | lift_except h => exact h
  | shared _ => exact lacksNoName_ok _
  | @bind _ _ step next _ _ ih ih' =>
      have hstep := ih registry
      rw [bind_apply]
      cases hrun : step registry with
      | mk outcome middle =>
          rw [hrun] at hstep
          cases outcome with
          | ok value => exact ih' value middle
          | error fault => exact lacksNoName_error (hstep fault rfl)

/-- In a complete registry the step adds shared enums at most, and lacks no name. -/
def Covered {α : Type} (compress : Bool) (set : DirectorySet) (step : Drafting α) : Prop :=
  ∀ registry : Registry, registry.Complete compress set →
    registry.SameNames (step registry).2 ∧ (step registry).2.Complete compress set ∧
      LacksNoNames (step registry).1

namespace Covered

variable {α β : Type}

theorem of_eq_ok {step : Drafting α}
    (h : ∀ registry : Registry, registry.Complete compress set →
      ∃ value, step registry = (.ok value, registry)) : Covered compress set step := by
  intro registry hcomplete
  obtain ⟨value, hrun⟩ := h registry hcomplete
  rw [hrun]
  exact ⟨.refl registry, hcomplete, lacksNoNames_ok value⟩

theorem lift_except {outcome : Except GenerationErrors α} (h : LacksNoNames outcome) :
    Covered compress set (liftM outcome : Drafting α) :=
  fun registry hcomplete => ⟨.refl registry, hcomplete, h⟩

theorem bind {step : Drafting α} {next : α → Drafting β} (h : Covered compress set step)
    (h' : ∀ value, Covered compress set (next value)) : Covered compress set (step >>= next) := by
  intro registry hcomplete
  obtain ⟨hsame, hmiddle, hnames⟩ := h registry hcomplete
  rw [bind_apply]
  cases hrun : step registry with
  | mk outcome middle =>
      rw [hrun] at hsame hmiddle hnames
      cases outcome with
      | ok value =>
          obtain ⟨hmore, hafter, hothers⟩ := h' value middle hmiddle
          exact ⟨hsame.trans hmore, hafter, hothers⟩
      | error errors => exact ⟨hsame, hmiddle, hnames.error⟩

theorem tryAll {steps : List (Drafting α)} (h : ∀ step ∈ steps, Covered compress set step)
    (hcomplete : registry.Complete compress set) :
    registry.SameNames (tryAll steps registry).2 ∧
      (YangToProto.tryAll steps registry).2.Complete compress set ∧
      ∀ outcome ∈ (YangToProto.tryAll steps registry).1, LacksNoNames outcome := by
  induction steps generalizing registry with
  | nil => exact ⟨.refl registry, hcomplete, fun _ hmem => absurd hmem List.not_mem_nil⟩
  | cons step rest ih =>
      obtain ⟨hsame, hmiddle, hnames⟩ := h step List.mem_cons_self registry hcomplete
      obtain ⟨hmore, hafter, hothers⟩ :=
        ih (fun other ho => h other (List.mem_cons_of_mem _ ho)) hmiddle
      exact ⟨hsame.trans hmore, hafter, List.forall_mem_cons.2 ⟨hnames, hothers⟩⟩

/-- Steps that are tried one after the other, and then must all have succeeded. -/
theorem collect {steps : List (Drafting α)} {next : List α → Drafting β}
    (h : ∀ step ∈ steps, Covered compress set step)
    (h' : ∀ values, Covered compress set (next values)) :
    Covered compress set (do
      let outcomes ← YangToProto.tryAll steps
      let values ← (GenerationErrors.gather outcomes : Except _ _)
      next values : Drafting β) := by
  intro registry hcomplete
  obtain ⟨hsame, hmiddle, hnames⟩ := tryAll h hcomplete
  obtain ⟨hmore, hafter, hothers⟩ :=
    bind (lift_except (lacksNoNames_gather hnames)) h' _ hmiddle
  exact ⟨hsame.trans hmore, hafter, hothers⟩

end Covered

theorem DraftStep.covered {α : Type} {step : Drafting α}
    (h : DraftStep compress Site.anyLeaf set.Needs step) : Covered compress set step := by
  induction h with
  | pure value => exact .of_eq_ok fun registry _ => ⟨value, rfl⟩
  | throw h =>
      exact .lift_except (lacksNoName_error h).mapError
  | package h =>
      obtain ⟨directory, hd, rfl⟩ := h
      refine .of_eq_ok fun registry hcomplete => ?_
      obtain ⟨package, hfound⟩ := hcomplete.packages directory hd
      refine ⟨package, ?_⟩
      rw [lift_state_apply, Registry.packageFor_of_find? hfound]
  | message h =>
      obtain ⟨directory, hd, rfl⟩ := h
      refine .of_eq_ok fun registry hcomplete => ?_
      obtain ⟨name, hname⟩ := (hcomplete.serves hcomplete.frozen).1 directory hd
      exact ⟨name, drafting_of_eq_ok (Registry.messageName_of_find? hname)⟩
  | keyMessage h listMessage package =>
      obtain ⟨hkeyed, directory, hd, hfield⟩ := h
      refine .of_eq_ok fun registry hcomplete => ?_
      obtain ⟨name, hname⟩ := (hcomplete.serves hcomplete.frozen).2 directory hd _ hfield hkeyed
      exact ⟨name, drafting_of_eq_ok (Registry.keyMessageName_of_find? hname)⟩
  | leaf h =>
      intro registry hcomplete
      have hsame := h.sameNames registry
      have hfrozen := (h.steady.grows registry).frozen_eq
      exact ⟨hsame, hcomplete.of_sameNames hsame hfrozen, (h.lacksNoName registry).mapError⟩
  | bind _ _ ih ih' => exact .bind ih ih'
  | collect _ _ ih ih' => exact .collect ih ih'

/-!
## Runs
-/

section Run

variable {config : Config} {tree : Tree} {directory : Directory} {state : GenerationState}

theorem Directory.covered_draft (hd : directory ∈ (tree.directories config).directories) :
    Covered config.compressPaths (tree.directories config)
      (directory.draft config (tree.directories config)) := by
  have hneeds : (tree.directories config).Needs (.directory directory.site) := ⟨directory, hd, rfl⟩
  exact (Directory.draftStep hneeds (Directory.mayAsk_of_mem hd) (Site.allAskAs_anyLeaf _)).covered

theorem MessageDraft.lacksNoNames_messages (draft : MessageDraft) (ledger : Ledger) :
    LacksNoNames (draft.messages ledger).1 := by
  rw [messages, Ledger.assign_eq]
  cases ((ledger.fieldTags draft.schemaPath).assign (ledger.fieldTags draft.schemaPath).highest
      (draft.scope.fields.map UntaggedField.name)).1 with
  | some tags => exact lacksNoNames_ok _
  | none => exact (lacksNoName_error (α := List Message) rfl).mapError

theorem Directory.lacksNoNames_messages (hd : directory ∈ (tree.directories config).directories)
    (hcomplete : state.registry.Complete config.compressPaths (tree.directories config)) :
    LacksNoNames (directory.messages config (tree.directories config) state).1 := by
  have hnames : LacksNoNames ((directory.draft config (tree.directories config)).run
      state.registry).1 := (Directory.covered_draft hd _ hcomplete).2.2
  rw [messages]
  cases hrun : (directory.draft config (tree.directories config)).run state.registry with
  | mk outcome after =>
      rw [hrun] at hnames
      cases outcome with
      | error errors => exact hnames.error
      | ok draft => exact draft.lacksNoNames_messages state.ledger

/-- The path text of a directory leads to some directory. -/
theorem DirectorySet.exists_find?_of_mem (hd : directory ∈ (tree.directories config).directories) :
    ∃ found, (tree.directories config).find? directory.site.pathText = some found := by
  cases hfind : (tree.directories config).find? directory.site.pathText with
  | some found => exact ⟨found, rfl⟩
  | none =>
      obtain ⟨site, _, _, rfl⟩ := mem_collect_iff.1 hd
      exact absurd (List.find?_eq_none.1 hfind _ (List.mem_reverse.2 hd)) (by simp)

theorem Site.covered_messageGroup (hd : directory ∈ (tree.directories config).directories)
    (hcomplete : state.registry.Complete config.compressPaths (tree.directories config)) :
    let run := directory.site.messageGroup config (tree.directories config) state
    state.registry.SameNames run.2.registry ∧
      run.2.registry.Complete config.compressPaths (tree.directories config) ∧
      LacksNoNames run.1 := by
  obtain ⟨site, hsite, hmessage, rfl⟩ := DirectorySet.mem_collect_iff.1 hd
  have hmodule : site.ancestors.isEmpty = false :=
    List.isEmpty_eq_false_iff.2 (isMessage_iff.1 hmessage).1
  obtain ⟨found, hfind⟩ := DirectorySet.exists_find?_of_mem hd
  have hfound := DirectorySet.mem_of_find? hfind
  obtain ⟨hsame, hafter, _⟩ := Directory.covered_draft hfound _ hcomplete
  have hnames := Directory.lacksNoNames_messages hfound hcomplete
  rw [← Directory.registry_messages config (tree.directories config) found state] at hsame hafter
  dsimp only
  rw [Directory.site_ofSite, messageGroup_of_find? hmodule hfind]
  cases hrun : found.messages config (tree.directories config) state with
  | mk outcome reached =>
      rw [hrun] at hsame hafter hnames
      cases outcome with
      | error errors => exact ⟨hsame, hafter, hnames.error⟩
      | ok messages =>
          obtain ⟨package, hpackage⟩ := hafter.packages _ hd
          dsimp only [Directory.site_ofSite] at hpackage ⊢
          rw [Registry.packageFor_of_find? hpackage]
          exact ⟨hsame, hafter, lacksNoNames_ok _⟩

namespace DirectorySet

theorem covered_messageGroups {directories : List Directory}
    (hall : ∀ directory ∈ directories, directory ∈ (tree.directories config).directories)
    (hcomplete : state.registry.Complete config.compressPaths (tree.directories config)) :
    let run := (tree.directories config).messageGroups config directories state
    state.registry.SameNames run.2.registry ∧
      run.2.registry.Complete config.compressPaths (tree.directories config) ∧
      ∀ outcome ∈ run.1, LacksNoNames outcome := by
  induction directories generalizing state with
  | nil => exact ⟨.refl _, hcomplete, fun _ hmem => absurd hmem List.not_mem_nil⟩
  | cons directory rest ih =>
      obtain ⟨hsame, hmiddle, hnames⟩ :=
        Site.covered_messageGroup (hall directory List.mem_cons_self) hcomplete
      obtain ⟨hmore, hafter, hothers⟩ :=
        ih (fun other ho => hall other (List.mem_cons_of_mem _ ho)) hmiddle
      exact ⟨hsame.trans hmore, hafter, List.forall_mem_cons.2 ⟨hnames, hothers⟩⟩

theorem covered_records
    (hcomplete : state.registry.Complete config.compressPaths (tree.directories config)) :
    let run := (tree.directories config).records config state
    state.registry.SameNames run.2.registry ∧
      run.2.registry.Complete config.compressPaths (tree.directories config) ∧
      LacksNoNames run.1 := by
  obtain ⟨hsame, hafter, hnames⟩ := covered_messageGroups (fun _ hd => hd) hcomplete
  refine ⟨hsame, hafter, ?_⟩
  exact (lacksNoNames_both (lacksNoNames_gather hnames)
    (Registry.lacksNoNames_buildSharedEnums _)).map _

end DirectorySet

/-- Naming in advance does not fail, and covers all that a run asks for. The run adds shared enums,
which may need suffixes, and changes nothing else in the registry; none of its errors is for want of
a name. -/
theorem Tree.names_in_advance (config : Config) (sources : Sources) (tree : Tree)
    (ledger : Ledger) :
    ∃ registry, Registry.ready config (tree.directories config) = .ok registry ∧
      (∀ errors, (tree.generate config sources ledger).1 = .error errors →
        ∀ error ∈ errors, error.isNaming = false) ∧
      let after := ((tree.directories config).output config sources ⟨registry, ledger⟩).2.registry
      after = { registry with
        enumNames := after.enumNames
        sharedEnums := after.sharedEnums
        enumScope := after.enumScope
        disambiguated := after.disambiguated } := by
  obtain ⟨registry, hready, hcomplete⟩ :=
    Registry.exists_complete config (tree.directories config)
  have hstart : (GenerationState.mk registry ledger).registry.Complete config.compressPaths
      (tree.directories config) := hcomplete
  obtain ⟨hsame, hafter, hnames⟩ := DirectorySet.covered_records hstart
  refine ⟨registry, hready, ?_, ?_⟩
  · have hgenerate : (tree.generate config sources ledger).1 =
        ((tree.directories config).records config ⟨registry, ledger⟩).1.map
          (·.output config sources) := by
      rw [generate, generateRecords, hready]
    rw [hgenerate]
    exact hnames.map _
  · have hfrozen := hafter.frozen.trans hcomplete.frozen.symm
    obtain ⟨⟨hbase, hpackages, hused⟩, hmessages, hkeys, hscopes⟩ := hsame
    change ((tree.directories config).records config ⟨registry, ledger⟩).2.registry = _
    rw [← hbase, ← hpackages, ← hused, ← hmessages, ← hkeys, ← hscopes, ← hfrozen]
    rfl

end Run

end YangToProto

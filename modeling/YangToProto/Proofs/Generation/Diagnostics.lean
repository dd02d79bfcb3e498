import YangToProto.Proofs.Generation.Grouping
import YangToProto.Proofs.Generation.Independence
import YangToProto.Proofs.Generation.Lockstep

/-!
# What a failing run reports

Fields are drafted one after the other, in a registry that each of them may extend. Still a field is
at fault for the same reasons as if it were drafted alone in a fresh registry
(`Directory.fieldFaults`), because drafts keep in step in any two registries that serve the
directories, whichever names and shared enums they have (`Registry.accord_bothServe`).

So a directory fails with what is wrong with each of its fields, in order, or for want of tags
(`Directory.faults`), and a run with what is wrong with its directories and its shared enums
(`Tree.faults_of_run`).
-/

namespace YangToProto

/-- The errors of an outcome; there are none if it is a value. -/
def faultsOf {α : Type} : Except GenerationErrors α → GenerationErrors
  | .ok _ => []
  | .error errors => errors

/-- A failing outcome has something to report. -/
def Reports {α : Type} (outcome : Except GenerationErrors α) : Prop :=
  ∀ errors, outcome = .error errors → errors ≠ []

section Outcomes

variable {α β : Type}

theorem eq_error_of_faultsOf {outcome : Except GenerationErrors α} (h : faultsOf outcome ≠ []) :
    outcome = .error (faultsOf outcome) := by
  cases outcome with
  | ok value => exact absurd rfl h
  | error errors => rfl

theorem Reports.exists_ok {outcome : Except GenerationErrors α} (h : Reports outcome)
    (hnone : faultsOf outcome = []) : ∃ value, outcome = .ok value := by
  cases outcome with
  | ok value => exact ⟨value, rfl⟩
  | error errors => exact absurd hnone (h errors rfl)

theorem reports_ok (value : α) : Reports (.ok value) := fun _ h => nomatch h

theorem reports_error {errors : GenerationErrors} (h : errors ≠ []) :
    Reports (.error errors : Except GenerationErrors α) := fun _ heq => by
  cases heq
  exact h

theorem reports_mapError (outcome : Except GenerationError α) :
    Reports (outcome.mapError fun error => [error]) := by
  cases outcome with
  | ok value => exact reports_ok value
  | error error => exact reports_error (List.cons_ne_nil _ _)

theorem faultsOf_map (outcome : Except GenerationErrors α) (f : α → β) :
    faultsOf (outcome.map f) = faultsOf outcome := by
  cases outcome with
  | ok value => rfl
  | error errors => rfl

theorem Reports.map {outcome : Except GenerationErrors α} (h : Reports outcome) (f : α → β) :
    Reports (outcome.map f) := by
  cases outcome with
  | ok value => exact reports_ok (f value)
  | error errors => exact reports_error (h errors rfl)

theorem Alike.faultsOf_eq {R : α → α → Prop} {outcome other : Except GenerationErrors α}
    (h : Alike R outcome other) : faultsOf outcome = faultsOf other := by
  cases h with
  | ok _ => rfl
  | error errors => rfl

theorem faultsOf_gather (outcomes : List (Except GenerationErrors α)) :
    faultsOf (GenerationErrors.gather outcomes) = outcomes.flatMap faultsOf := by
  induction outcomes with
  | nil => rfl
  | cons outcome rest ih =>
      rw [List.flatMap_cons, ← ih]
      cases outcome with
      | ok value =>
          rw [GenerationErrors.gather, faultsOf_map]
          rfl
      | error errors =>
          rw [GenerationErrors.gather]
          cases GenerationErrors.gather rest with
          | ok values => exact (List.append_nil errors).symm
          | error more => rfl

theorem reports_gather {outcomes : List (Except GenerationErrors α)}
    (h : ∀ outcome ∈ outcomes, Reports outcome) : Reports (GenerationErrors.gather outcomes) := by
  induction outcomes with
  | nil => exact reports_ok []
  | cons outcome rest ih =>
      have hrest := ih fun other ho => h other (List.mem_cons_of_mem _ ho)
      have hfirst := h outcome List.mem_cons_self
      cases outcome with
      | ok value => exact hrest.map _
      | error errors =>
          rw [GenerationErrors.gather]
          cases GenerationErrors.gather rest with
          | ok values => exact reports_error (hfirst errors rfl)
          | error more =>
              exact reports_error (List.append_ne_nil_of_left_ne_nil (hfirst errors rfl) _)

theorem faultsOf_both (outcome : Except GenerationErrors α) (other : Except GenerationErrors β) :
    faultsOf (DirectorySet.both outcome other) = faultsOf outcome ++ faultsOf other := by
  cases outcome with
  | ok value => cases other <;> rfl
  | error errors =>
      cases other with
      | ok value => exact (List.append_nil errors).symm
      | error more => rfl

theorem reports_both {outcome : Except GenerationErrors α} {other : Except GenerationErrors β}
    (h : Reports outcome) (h' : Reports other) : Reports (DirectorySet.both outcome other) := by
  cases outcome with
  | ok value =>
      cases other with
      | ok value' => exact reports_ok (value, value')
      | error more => exact reports_error (h' more rfl)
  | error errors =>
      cases other with
      | ok value' => exact reports_error (h errors rfl)
      | error more => exact reports_error (List.append_ne_nil_of_left_ne_nil (h errors rfl) _)

end Outcomes

/-!
## Drafts
-/

/-- Whatever the registry, the step reports something if it fails. -/
def Telling {α : Type} (step : Drafting α) : Prop :=
  ∀ registry : Registry, Reports (step registry).1

namespace Telling

variable {α β : Type}

theorem bind {step : Drafting α} {next : α → Drafting β} (h : Telling step)
    (h' : ∀ value, Telling (next value)) : Telling (step >>= next) := by
  intro registry
  have hstep := h registry
  rw [bind_apply]
  cases hrun : step registry with
  | mk outcome middle =>
      rw [hrun] at hstep
      cases outcome with
      | ok value => exact h' value middle
      | error errors => exact reports_error (hstep errors rfl)

theorem tryAll {steps : List (Drafting α)} (h : ∀ step ∈ steps, Telling step)
    (registry : Registry) : ∀ outcome ∈ (tryAll steps registry).1, Reports outcome := by
  induction steps generalizing registry with
  | nil => exact fun _ hmem => absurd hmem List.not_mem_nil
  | cons step rest ih =>
      exact List.forall_mem_cons.2 ⟨h step List.mem_cons_self registry,
        ih (fun other ho => h other (List.mem_cons_of_mem _ ho)) _⟩

/-- Steps that are tried one after the other, and then must all have succeeded. -/
theorem collect {steps : List (Drafting α)} {next : List α → Drafting β}
    (h : ∀ step ∈ steps, Telling step) (h' : ∀ values, Telling (next values)) :
    Telling (do
      let outcomes ← YangToProto.tryAll steps
      let values ← (GenerationErrors.gather outcomes : Except _ _)
      next values : Drafting β) := by
  intro registry
  have hgather : Telling (liftM (GenerationErrors.gather (YangToProto.tryAll steps registry).1) :
      Drafting (List α)) := fun _ => reports_gather (tryAll h registry)
  exact hgather.bind h' _

end Telling

theorem DraftStep.telling {compress : Bool} {leaves : Site → LeafType → Prop}
    {asks : Owner → Prop} {α : Type} {step : Drafting α}
    (h : DraftStep compress leaves asks step) : Telling step := by
  induction h with
  | pure value => exact fun _ => reports_ok value
  | throw _ => exact fun _ => reports_error (List.cons_ne_nil _ _)
  | package _ => exact fun _ => reports_ok _
  | message _ => exact fun _ => reports_mapError _
  | keyMessage _ _ _ => exact fun _ => reports_mapError _
  | leaf _ => exact fun _ => reports_mapError _
  | bind _ _ ih ih' => exact ih.bind ih'
  | collect _ _ ih ih' => exact .collect ih ih'

/-- An outcome that is only made into something else keeps its errors. -/
theorem faultsOf_liftM_bind {α β : Type} (outcome : Except GenerationErrors α) (f : α → β)
    (registry : Registry) :
    faultsOf ((liftM outcome >>= fun value => pure (f value) : Drafting β) registry).1 =
      faultsOf outcome := by
  cases outcome with
  | ok value => rfl
  | error errors => rfl

namespace Directory

variable {config : Config} {set : DirectorySet} {tree : Tree} {directory : Directory}
  {registry : Registry}

def draftAlone (config : Config) (set : DirectorySet) (directory : Directory)
    (field : String × Site) : Drafting FieldDraft := do
  let package ← Registry.packageFor config.compressPaths directory.site
  field.2.draft config set directory.path package field.1

/-- What is wrong with a field of a directory that is drafted alone in a fresh registry. -/
def fieldFaults (config : Config) (set : DirectorySet) (directory : Directory)
    (field : String × Site) : GenerationErrors :=
  faultsOf (directory.draftAlone config set field (Registry.cold config)).1

/-- What is wrong with a field is the same in every registry that serves the directories, whichever
package the directory is in. -/
theorem faultsOf_draft_field (hd : directory ∈ (tree.directories config).directories)
    {field : String × Site} (hfield : field ∈ directory.fields.entries)
    (h : registry.Serves (tree.directories config)) (package : String) :
    faultsOf (field.2.draft config (tree.directories config) directory.path package field.1
      registry).1 = directory.fieldFaults config (tree.directories config) field := by
  have hgrows : (Registry.cold config).Grows Site.anyLeaf
      (Registry.packageFor config.compressPaths directory.site (Registry.cold config)).2 :=
    Registry.Grows.refl.package config.compressPaths directory.site
  have hstep : Lockstep (Registry.BothServe (tree.directories config)) (FieldDraft.Like Unrelated)
      (field.2.draft config (tree.directories config) directory.path package field.1)
      (field.2.draft config (tree.directories config) directory.path
        (Registry.packageFor config.compressPaths directory.site (Registry.cold config)).1
        field.1) :=
    Site.lockstep_draft rfl (Registry.accord_bothServe _ _)
      (Directory.mayAsk_of_mem hd field hfield) _ _ _ _
  exact (hstep.run ⟨h, (Registry.serves_cold config _).of_grows hgrows⟩).1.faultsOf_eq

theorem faultsOf_drafts (hd : directory ∈ (tree.directories config).directories)
    {fields : List (String × Site)} (hfields : ∀ field ∈ fields, field ∈ directory.fields.entries)
    (h : registry.Serves (tree.directories config)) (package : String) :
    (Site.drafts config (tree.directories config) directory.path package fields
      registry).1.flatMap faultsOf =
        fields.flatMap (directory.fieldFaults config (tree.directories config)) := by
  induction fields generalizing registry with
  | nil => rfl
  | cons field rest ih =>
      have hsteady : Steady Site.anyLeaf
          (field.2.draft config (tree.directories config) directory.path package field.1) :=
        Site.steady_draft field.2.asksAs_anyLeaf fun _ leaf _ => leaf.asksAs_anyLeaf
      rw [Site.drafts_cons, List.flatMap_cons, List.flatMap_cons,
        faultsOf_draft_field hd (hfields field List.mem_cons_self) h package,
        ih (fun other ho => hfields other (List.mem_cons_of_mem _ ho))
          (h.of_grows (hsteady.grows registry))]

/-- What is wrong with a directory is what is wrong with each of its own fields. -/
theorem faultsOf_draft (hd : directory ∈ (tree.directories config).directories)
    (h : registry.Serves (tree.directories config)) :
    faultsOf (directory.draft config (tree.directories config) registry).1 =
      (directory.ownFields config.compressPaths).flatMap
        (directory.fieldFaults config (tree.directories config)) := by
  have hown : ∀ field ∈ directory.ownFields config.compressPaths,
      field ∈ directory.fields.entries := fun field hfield => (List.mem_filter.1 hfield).1
  obtain ⟨name, hname⟩ := h.messageName hd config.compressPaths
  cases hnamed : Registry.messageName config.compressPaths directory.site registry with
  | mk outcome first =>
      rw [hnamed] at hname
      obtain rfl : outcome = .ok name := hname
      cases hpackage : Registry.packageFor config.compressPaths directory.site first with
      | mk package second =>
          have hgrows : registry.Grows Site.anyLeaf
              (Registry.messageName config.compressPaths directory.site registry).2 :=
            Registry.Grows.refl.message _ _
          rw [hnamed] at hgrows
          have hmore := hgrows.package config.compressPaths directory.site
          rw [hpackage] at hmore
          rw [draft, bind_apply, Naming.drafting_apply, hnamed]
          dsimp only [Except.mapError]
          rw [bind_apply, lift_state_apply, hpackage]
          dsimp only
          rw [bind_apply, lift_state_apply]
          dsimp only
          rw [faultsOf_liftM_bind, faultsOf_gather, faultsOf_drafts hd hown (h.of_grows hmore)]

end Directory

/-!
## Directories
-/

namespace Ledger

/-- The error of a message for whose fields there are not enough tags. -/
def exhausted (path : String) : GenerationError :=
  .unimplemented s!"message {path} has exhausted the field tag space"

theorem assign_cases (ledger : Ledger) (path : String) (fields : List String) :
    (∃ tags, (ledger.assign path fields).1 = .ok tags) ∨
      (ledger.assign path fields).1 = .error (exhausted path) := by
  rw [assign_eq]
  cases ((ledger.fieldTags path).assign (ledger.fieldTags path).highest fields).1 with
  | some tags => exact Or.inl ⟨tags, rfl⟩
  | none => exact Or.inr rfl

end Ledger

theorem MessageDraft.faultsOf_messages (draft : MessageDraft) (ledger : Ledger) :
    faultsOf (draft.messages ledger).1 = faultsOf
        ((ledger.assign draft.schemaPath (draft.scope.fields.map UntaggedField.name)).1.mapError
          fun error => [error]) ∧
      Reports (draft.messages ledger).1 := by
  rw [messages]
  cases ledger.assign draft.schemaPath (draft.scope.fields.map UntaggedField.name) with
  | mk outcome after =>
      cases outcome with
      | ok tags => exact ⟨rfl, reports_ok _⟩
      | error error => exact ⟨rfl, reports_error (List.cons_ne_nil _ _)⟩

namespace Directory

variable {config : Config} {set : DirectorySet} {tree : Tree} {directory : Directory}
  {state : GenerationState}

def allFieldFaults (config : Config) (set : DirectorySet) (directory : Directory) :
    GenerationErrors :=
  (directory.ownFields config.compressPaths).flatMap (directory.fieldFaults config set)

/-- What is wrong with a directory: its fields, or else that a ledger has not enough tags left. -/
def faults (config : Config) (set : DirectorySet) (ledger : Ledger) (directory : Directory) :
    GenerationErrors :=
  if (directory.allFieldFaults config set).isEmpty then
    faultsOf ((ledger.assign directory.path
      (directory.protoNames config.compressPaths)).1.mapError fun error => [error])
  else directory.allFieldFaults config set

theorem telling_draft (config : Config) (set : DirectorySet) (directory : Directory) :
    Telling (directory.draft config set) := by
  have hasks : Owner.any (.directory directory.site) := trivial
  exact (Directory.draftStep hasks (fun field _ => field.2.mayAsk_any)
    (Site.allAskAs_anyLeaf _)).telling

/-- A directory fails with what is wrong with it. If that is its fields, the ledger stays as it
is. -/
theorem faultsOf_messages (hd : directory ∈ (tree.directories config).directories)
    (h : state.registry.Serves (tree.directories config)) :
    faultsOf (directory.messages config (tree.directories config) state).1 =
        directory.faults config (tree.directories config) state.ledger ∧
      Reports (directory.messages config (tree.directories config) state).1 ∧
      (directory.allFieldFaults config (tree.directories config) ≠ [] →
        (directory.messages config (tree.directories config) state).2.ledger = state.ledger) := by
  have hfaults := faultsOf_draft hd h
  have htelling := telling_draft config (tree.directories config) directory state.registry
  rw [messages, faults, allFieldFaults, ← hfaults]
  cases hdraft : directory.draft config (tree.directories config) state.registry with
  | mk outcome registry =>
      rw [hdraft] at htelling
      rw [ExceptT.run, hdraft]
      cases outcome with
      | error errors =>
          have hne := htelling errors rfl
          refine ⟨?_, reports_error hne, fun _ => rfl⟩
          rw [if_neg (by simpa [faultsOf] using hne)]
          rfl
      | ok draft =>
          obtain ⟨hpath, hnames, _⟩ := Directory.shape_of_draft hdraft
          obtain ⟨hassign, hreports⟩ := draft.faultsOf_messages state.ledger
          rw [hpath, hnames] at hassign
          exact ⟨hassign, hreports, fun hne => absurd rfl hne⟩

/-- Of the ledger, only the record of the directory's own message counts. -/
theorem faults_of_same {ledger other : Ledger}
    (h : other.messages.find? directory.path = ledger.messages.find? directory.path) :
    directory.faults config set other = directory.faults config set ledger := by
  rw [faults, faults, (Ledger.assign_of_same h _).1]

end Directory

/-!
## Runs
-/

section Runs

variable {config : Config} {set : DirectorySet} {tree : Tree} {directory : Directory}
  {state : GenerationState}

/-- Without slashes in names, what is wrong with the node of a directory is what is wrong with the
directory. -/
theorem Site.faultsOf_messageGroup (hroot : tree.root.Distinct) (hslash : tree.SlashFree)
    (hd : directory ∈ (tree.directories config).directories)
    (h : state.registry.Serves (tree.directories config)) :
    faultsOf (directory.site.messageGroup config (tree.directories config) state).1 =
        directory.faults config (tree.directories config) state.ledger ∧
      Reports (directory.site.messageGroup config (tree.directories config) state).1 := by
  obtain ⟨hfaults, hreports, _⟩ := Directory.faultsOf_messages hd h
  obtain ⟨site, _, hmessage, rfl⟩ := DirectorySet.mem_collect_iff.1 hd
  have hmodule : site.ancestors.isEmpty = false :=
    List.isEmpty_eq_false_iff.2 (isMessage_iff.1 hmessage).1
  have hfind : (tree.directories config).find? site.pathText =
      some (Directory.ofSite config.compressPaths site) :=
    DirectorySet.find?_collect hroot hslash hd
  rw [← hfaults, Directory.site_ofSite, messageGroup_of_find? hmodule hfind]
  cases hrun : (Directory.ofSite config.compressPaths site).messages config
      (tree.directories config) state with
  | mk outcome reached =>
      rw [hrun] at hreports
      cases outcome with
      | error errors => exact ⟨rfl, reports_error (hreports errors rfl)⟩
      | ok messages => exact ⟨rfl, reports_ok _⟩

namespace DirectorySet

/-- Directories fail one by one, whatever the others have left in the registry and the ledger. -/
theorem faultsOf_messageGroups (hroot : tree.root.Distinct) (hslash : tree.SlashFree)
    {directories : List Directory}
    (hall : ∀ directory ∈ directories, directory ∈ (tree.directories config).directories)
    (hpaths : (directories.map Directory.path).Nodup)
    (h : state.registry.Serves (tree.directories config)) :
    ((tree.directories config).messageGroups config directories state).1.flatMap faultsOf =
        directories.flatMap
          (Directory.faults config (tree.directories config) state.ledger) ∧
      ∀ outcome ∈ ((tree.directories config).messageGroups config directories state).1,
        Reports outcome := by
  induction directories generalizing state with
  | nil => exact ⟨rfl, fun _ hmem => absurd hmem List.not_mem_nil⟩
  | cons directory rest ih =>
      have hd := hall directory List.mem_cons_self
      obtain ⟨hfresh, hpaths⟩ := List.nodup_cons.1 hpaths
      obtain ⟨hfirst, hreports⟩ := Site.faultsOf_messageGroup hroot hslash hd h
      have hgrows : state.registry.Grows Site.anyLeaf (directory.site.messageGroup config
          (tree.directories config) state).2.registry :=
        Site.grows_registry (fun found _ => Site.allAskAs_anyLeaf _) state
      obtain ⟨hothers, hmore⟩ :=
        ih (fun other ho => hall other (List.mem_cons_of_mem _ ho)) hpaths (h.of_grows hgrows)
      have hsame : ∀ other ∈ rest,
          other.faults config (tree.directories config) (directory.site.messageGroup config
            (tree.directories config) state).2.ledger =
          other.faults config (tree.directories config) state.ledger := by
        intro other ho
        refine Directory.faults_of_same (Site.find?_messageGroup_of_ne fun hpath => hfresh ?_)
        obtain ⟨site, _, _, rfl⟩ := mem_collect_iff.1 hd
        exact List.mem_map.2 ⟨other, ho, hpath⟩
      refine ⟨?_, List.forall_mem_cons.2 ⟨hreports, hmore⟩⟩
      rw [messageGroups]
      dsimp only
      rw [List.flatMap_cons, List.flatMap_cons, hfirst, hothers, List.flatMap_congr hsame]

end DirectorySet

end Runs

namespace Registry

def enumFaults (registry : Registry) : GenerationErrors :=
  registry.sharedEnums.values.flatMap fun definition =>
    faultsOf (definition.build.mapError fun error => [error])

theorem faultsOf_buildSharedEnums (registry : Registry) :
    faultsOf registry.buildSharedEnums = registry.enumFaults ∧
      Reports registry.buildSharedEnums := by
  rw [buildSharedEnums, faultsOf_gather, List.flatMap_map]
  refine ⟨rfl, reports_gather fun outcome hmem => ?_⟩
  obtain ⟨definition, _, rfl⟩ := List.mem_map.1 hmem
  exact reports_mapError _

/-- The registry was fresh, or had named in advance all that some directories need, and may have
answered any requests since then. -/
def Begun (config : Config) (set : DirectorySet) (registry : Registry) : Prop :=
  ∃ start, (start = cold config ∨ ready config set = .ok start) ∧
    start.Grows Site.anyLeaf registry

theorem Begun.serves {config : Config} {set : DirectorySet} {registry : Registry}
    (h : registry.Begun config set) : registry.Serves set := by
  obtain ⟨start, rfl | hready, hgrows⟩ := h
  · exact (serves_cold config set).of_grows hgrows
  · obtain ⟨named, hnamed, hserves, _⟩ := exists_ready config set
    obtain rfl := Except.ok.inj (hnamed.symm.trans hready)
    exact hserves.of_grows hgrows

end Registry

namespace DirectorySet

/-- A run fails with what is wrong with the directories in order and then with the shared enums that
were asked for. -/
theorem faultsOf_records {config : Config} {tree : Tree} {state : GenerationState}
    (hroot : tree.root.Distinct) (hslash : tree.SlashFree)
    (h : state.registry.Serves (tree.directories config)) :
    faultsOf ((tree.directories config).records config state).1 =
        (tree.directories config).directories.flatMap
            (Directory.faults config (tree.directories config) state.ledger) ++
          ((tree.directories config).records config state).2.registry.enumFaults ∧
      Reports ((tree.directories config).records config state).1 := by
  obtain ⟨hfaults, hreports⟩ := faultsOf_messageGroups hroot hslash (fun _ hd => hd)
    (nodup_paths hroot hslash) h
  rw [records]
  dsimp only
  obtain ⟨henums, hbuilt⟩ := Registry.faultsOf_buildSharedEnums ((tree.directories
    config).messageGroups config (tree.directories config).directories state).2.registry
  refine ⟨?_, (reports_both (reports_gather hreports) hbuilt).map _⟩
  rw [faultsOf_map, faultsOf_both, faultsOf_gather, hfaults, henums]

end DirectorySet

/-- A directory fails with the faults of its fields, each as if drafted alone, and then leaves the
ledger as it is; if they have none it fails for want of tags only. A run fails with the faults of
its directories and then of its shared enums, and only if there are some. -/
theorem Tree.faults_of_run {declared : Node} {tree : Tree} (htree : Tree.ofNode declared = .ok tree)
    (hslash : tree.SlashFree) (config : Config) (sources : Sources) {registry : Registry}
    (hregistry : registry.Begun config (tree.directories config)) (ledger : Ledger) :
    let set := tree.directories config
    (∀ directory ∈ set.directories,
      let faults := directory.allFieldFaults config set
      let run := directory.messages config set ⟨registry, ledger⟩
      (faults ≠ [] → run.1 = .error faults ∧ run.2.ledger = ledger ∧
        directory.faults config set ledger = faults) ∧
      (faults = [] →
        ((∃ messages, run.1 = .ok messages) ∧ directory.faults config set ledger = []) ∨
        (run.1 = .error [Ledger.exhausted directory.path] ∧
          directory.faults config set ledger = [Ledger.exhausted directory.path] ∧
          (ledger.assign directory.path (directory.protoNames config.compressPaths)).1 =
            .error (Ledger.exhausted directory.path)))) ∧
    let run := set.output config sources ⟨registry, ledger⟩
    let faults := set.directories.flatMap (Directory.faults config set ledger) ++
      run.2.registry.enumFaults
    (faults = [] → ∃ output, run.1 = .ok output) ∧ (faults ≠ [] → run.1 = .error faults) := by
  intro set
  have hroot := Tree.distinct_root htree
  have hserves : (GenerationState.mk registry ledger).registry.Serves set := hregistry.serves
  refine ⟨fun directory hd => ?_, ?_⟩
  · intro faults run
    obtain ⟨hfaults, hreports, hledger⟩ := Directory.faultsOf_messages hd hserves
    constructor
    · intro hne
      have hsame : directory.faults config set ledger = faults := by
        rw [Directory.faults, if_neg (by simpa using hne)]
      have hfound : faultsOf run.1 = faults := hfaults.trans hsame
      refine ⟨?_, hledger hne, hsame⟩
      rw [← hfound] at hne ⊢
      exact eq_error_of_faultsOf hne
    · intro hnone
      have hsame : directory.faults config set ledger = faultsOf ((ledger.assign directory.path
          (directory.protoNames config.compressPaths)).1.mapError fun error => [error]) := by
        rw [Directory.faults, if_pos (by simpa using hnone)]
      rcases ledger.assign_cases directory.path (directory.protoNames config.compressPaths) with
        ⟨tags, htags⟩ | hexhausted
      · rw [htags] at hsame
        exact Or.inl ⟨hreports.exists_ok (hfaults.trans hsame), hsame⟩
      · rw [hexhausted] at hsame
        have hfound : faultsOf run.1 = [Ledger.exhausted directory.path] := hfaults.trans hsame
        refine Or.inr ⟨?_, hsame, hexhausted⟩
        rw [← hfound]
        exact eq_error_of_faultsOf (hfound ▸ List.cons_ne_nil _ _)
  · intro run faults
    obtain ⟨hfaults, hreports⟩ := DirectorySet.faultsOf_records hroot hslash hserves
    have hrun : faultsOf run.1 = faults := (faultsOf_map _ _).trans hfaults
    rw [← hrun]
    exact ⟨fun hnone => (hreports.map _).exists_ok hnone, eq_error_of_faultsOf⟩

theorem Tree.faults_of_run_two_fields :
    let declared := Node.module "m" [Node.container "top"
      [Node.anydata "any", Node.leaf "ref" (.builtin (.scalar .leafref)), Node.leaf "x" .string]]
    let tree := Tree.copyOf declared
    let set := tree.directories {}
    let registry := Registry.cold {}
    Tree.ofNode declared = .ok tree ∧ tree.SlashFree ∧ registry.Begun {} set ∧
      (set.output {} {} ⟨registry, ∅⟩).1 = .error
        [.unknownFieldKind "/m/top" "any", .unsupportedType "/m/top/ref" "leafref"] ∧
      ∀ directory ∈ set.directories,
        (directory.messages {} set ⟨registry, ∅⟩).2.ledger = ∅ := by
  intro declared tree set registry
  have htree : Tree.ofNode declared = .ok tree :=
    Tree.ofNode_eq rfl (by decide +kernel)
  have hslash : tree.SlashFree := Tree.slashFree_of_sites (by decide +kernel)
  have hbegun : registry.Begun {} set := ⟨registry, Or.inl rfl, .refl⟩
  obtain ⟨hdirectories, _, hfails⟩ := Tree.faults_of_run htree hslash {} {} hbegun ∅
  have hfaults : set.directories.flatMap (Directory.faults {} set ∅) ++
      (set.output {} {} ⟨registry, ∅⟩).2.registry.enumFaults =
        [.unknownFieldKind "/m/top" "any", .unsupportedType "/m/top/ref" "leafref"] := by
    decide +kernel
  rw [hfaults] at hfails
  have hown : ∀ directory ∈ set.directories, directory.allFieldFaults {} set ≠ [] := by
    decide +kernel
  exact ⟨htree, hslash, hbegun, hfails (List.cons_ne_nil _ _), fun directory hd =>
    ((hdirectories directory hd).1 (hown directory hd)).2.1⟩

end YangToProto

import YangToProto.Proofs.Generation.Records
import YangToProto.Proofs.Ledger.Repetition
import YangToProto.Proofs.Naming.Serving

/-!
# Generating again

A run made again from the registry and the ledger that it has left comes to the same files or to the
same errors, and changes nothing (`DirectorySet.output_again`). Nothing is asked of the registry: it
may be cold, frozen, or have served other runs before.

Steps of a draft are `Repeatable`: in every registry that has grown from the one they leave they
come to the same outcome, also when they fail, because a registry that refused a name is frozen and
stays without it. The messages of a directory also depend on its own record in the ledger, which
other directories leave alone (`Site.messageGroup_behind`).
-/

namespace YangToProto

variable {asks : Site → LeafType → Prop} {registry start after later : Registry}

/-!
## Naming
-/

namespace Registry

variable {compress : Bool} {site list : Site}

theorem messageName_of_frozen (h : registry.frozen = true) (compress : Bool) (site : Site) :
    messageName compress site registry =
      (match registry.messages.find? site.pathText with
        | some name => .ok name
        | none => .error (.nameResolution site.pathText
            "no message name was assigned before generation"), registry) := by
  rw [messageName_eq, h]
  cases registry.messages.find? site.pathText with
  | some name => rfl
  | none => rfl

theorem keyMessageName_of_frozen (h : registry.frozen = true) (list : Site)
    (listMessage package : String) :
    keyMessageName list listMessage package registry =
      (match registry.keyMessages.find? list.pathText with
        | some name => .ok name
        | none => .error (.nameResolution list.pathText
            "no key message name was assigned before generation"), registry) := by
  rw [keyMessageName_eq, h]
  cases registry.keyMessages.find? list.pathText with
  | some name => rfl
  | none => rfl

/-- A frozen registry gives no more names to messages. -/
theorem Grows.names_of_frozen (h : start.Grows asks after) (hfrozen : start.frozen = true) :
    after.messages = start.messages ∧ after.keyMessages = start.keyMessages := by
  induction h with
  | refl => exact ⟨rfl, rfl⟩
  | package _ compress site ih =>
      rw [packageFor]
      split
      · exact ih
      · exact ih
  | message h compress site ih =>
      rw [messageName_of_frozen (h.frozen_eq.trans hfrozen)]
      exact ih
  | keyMessage h list listMessage package ih =>
      rw [keyMessageName_of_frozen (h.frozen_eq.trans hfrozen)]
      exact ih
  | sharedEnum _ _ ih =>
      rw [sharedEnumName]
      split
      · exact ih
      · exact ih

theorem messageName_again (h : (messageName compress site registry).2.Grows asks later) :
    messageName compress site later = ((messageName compress site registry).1, later) := by
  cases hfrozen : registry.frozen with
  | false =>
      obtain ⟨name, after, hname, _⟩ := exists_messageName hfrozen compress site
      rw [hname] at h ⊢
      exact messageName_of_find? (h.keptBy.messages _ _ (keptBy_messageName hname).2)
  | true =>
      rw [messageName_of_frozen hfrozen] at h ⊢
      rw [messageName_of_frozen (h.frozen_eq.trans hfrozen), (h.names_of_frozen hfrozen).1]

theorem keyMessageName_again {listMessage package : String}
    (h : (keyMessageName list listMessage package registry).2.Grows asks later) :
    keyMessageName list listMessage package later =
      ((keyMessageName list listMessage package registry).1, later) := by
  cases hfrozen : registry.frozen with
  | false =>
      obtain ⟨name, after, hname, _⟩ := exists_keyMessageName hfrozen list listMessage package
      rw [hname] at h ⊢
      exact keyMessageName_of_find? (h.keptBy.keyMessages _ _ (keptBy_keyMessageName hname).2)
  | true =>
      rw [keyMessageName_of_frozen hfrozen] at h ⊢
      rw [keyMessageName_of_frozen (h.frozen_eq.trans hfrozen), (h.names_of_frozen hfrozen).2]

end Registry

/-!
## Drafts
-/

/-- The step lets the registry grow. In every registry that grows from there it comes to the same
outcome, a value or an error, and changes nothing. -/
structure Repeatable {ε α : Type} (step : ExceptT ε (StateM Registry) α) : Prop where
  grows : ∀ registry : Registry, registry.Grows Site.anyLeaf (step registry).2
  again : ∀ {registry later : Registry}, (step registry).2.Grows Site.anyLeaf later →
    step later = ((step registry).1, later)

namespace Repeatable

variable {ε α β : Type}

theorem pure (value : α) : Repeatable (pure value : ExceptT ε (StateM Registry) α) :=
  ⟨fun _ => .refl, fun _ => rfl⟩

theorem throw (fault : ε) : Repeatable (throw fault : ExceptT ε (StateM Registry) α) :=
  ⟨fun _ => .refl, fun _ => rfl⟩

theorem lift_except (outcome : Except ε α) :
    Repeatable (liftM outcome : ExceptT ε (StateM Registry) α) :=
  ⟨fun _ => .refl, fun _ => rfl⟩

theorem drafting {step : Naming α} (h : Repeatable step) : Repeatable step.drafting where
  grows := h.grows
  again := fun hgrows => by
    rw [Naming.drafting_apply, h.again hgrows]
    rfl

theorem bind {step : ExceptT ε (StateM Registry) α} {next : α → ExceptT ε (StateM Registry) β}
    (h : Repeatable step) (h' : ∀ value, Repeatable (next value)) :
    Repeatable (step >>= next) where
  grows := fun registry => by
    have hstep := h.grows registry
    rw [bind_apply]
    cases hrun : step registry with
    | mk outcome middle =>
        rw [hrun] at hstep
        cases outcome with
        | ok value => exact hstep.trans ((h' value).grows middle)
        | error fault => exact hstep
  again := fun {registry later} hgrows => by
    have hagain : (step registry).2.Grows Site.anyLeaf later →
        step later = ((step registry).1, later) := h.again
    rw [bind_apply] at hgrows ⊢
    rw [bind_apply]
    cases hrun : step registry with
    | mk outcome middle =>
        rw [hrun] at hagain hgrows
        cases outcome with
        | ok value =>
            rw [hagain (((h' value).grows middle).trans hgrows)]
            exact (h' value).again hgrows
        | error fault => rw [hagain hgrows]

theorem lift_tryAll {steps : List (Drafting α)} (h : ∀ step ∈ steps, Repeatable step) :
    Repeatable (liftM (tryAll steps) : Drafting (List (Except GenerationErrors α))) := by
  induction steps with
  | nil => exact ⟨fun _ => .refl, fun _ => rfl⟩
  | cons step rest ih =>
      have hstep := h step List.mem_cons_self
      have hrest := ih fun other ho => h other (List.mem_cons_of_mem _ ho)
      constructor
      · exact fun registry => (hstep.grows registry).trans (hrest.grows _)
      · intro registry later hgrows
        have hfirst := hstep.again ((hrest.grows (step registry).2).trans hgrows)
        have hothers : (liftM (tryAll rest) : Drafting (List (Except GenerationErrors α))) later =
            (.ok (tryAll rest (step registry).2).1, later) := hrest.again hgrows
        rw [lift_state_apply, Prod.mk.injEq, Except.ok.injEq] at hothers
        rw [lift_state_apply, lift_state_apply, tryAll_cons, tryAll_cons, hfirst, hothers.1,
          hothers.2]

end Repeatable

theorem LeafStep.repeatable {α : Type} {step : Naming α} (h : LeafStep Site.anyLeaf step) :
    Repeatable step := by
  induction h with
  | pure value => exact .pure value
  | throw _ => exact .throw _
  | lift_except _ => exact .lift_except _
  | @shared config leaf type hasks =>
      have hsteady : Steady Site.anyLeaf (LeafType.mapShared config leaf type :
          Naming MappedType) := LeafType.steady_mapShared hasks
      exact ⟨hsteady.grows, fun hgrows => hsteady.again rfl hgrows.keptBy⟩
  | bind _ _ ih ih' => exact .bind ih ih'

theorem DraftStep.repeatable {compress : Bool} {asks : Owner → Prop} {α : Type} {step : Drafting α}
    (h : DraftStep compress Site.anyLeaf asks step) : Repeatable step := by
  induction h with
  | pure value => exact .pure value
  | throw _ => exact .throw _
  | @package site _ =>
      have hsteady : Steady Site.anyLeaf (liftM (Registry.packageFor compress site) :
          Drafting String) := Registry.steady_packageFor compress site
      exact ⟨hsteady.grows, fun hgrows => hsteady.again rfl hgrows.keptBy⟩
  | @message site _ =>
      have hname : Repeatable (Registry.messageName compress site) :=
        ⟨fun _ => Registry.Grows.refl.message compress site, Registry.messageName_again⟩
      exact hname.drafting
  | @keyMessage list _ listMessage package =>
      have hname : Repeatable (Registry.keyMessageName list listMessage package) :=
        ⟨fun _ => Registry.Grows.refl.keyMessage list listMessage package,
          Registry.keyMessageName_again⟩
      exact hname.drafting
  | leaf h => exact h.repeatable.drafting
  | bind _ _ ih ih' => exact .bind ih ih'
  | collect _ _ ih ih' => exact .bind (.lift_tryAll ih) fun _ => .bind (.lift_except _) ih'

variable {config : Config} {set : DirectorySet} {state : GenerationState}

theorem Directory.repeatable_draft (config : Config) (set : DirectorySet) (directory : Directory) :
    Repeatable (directory.draft config set) := by
  have hasks : Owner.any (.directory directory.site) := trivial
  exact (Directory.draftStep hasks (fun field _ => field.2.mayAsk_any)
    (Site.allAskAs_anyLeaf _)).repeatable

/-!
## Messages
-/

/-- Tagging again changes nothing where the ledger has the same record of the message. -/
theorem MessageDraft.messages_again (draft : MessageDraft) {ledger later : Ledger}
    (hsame : later.messages.find? draft.schemaPath =
      (draft.messages ledger).2.messages.find? draft.schemaPath) :
    draft.messages later = ((draft.messages ledger).1, later) := by
  have hagain := ledger.assign_again draft.schemaPath (draft.scope.fields.map UntaggedField.name)
  rw [messages] at hsame ⊢
  rw [messages]
  cases hrun : ledger.assign draft.schemaPath (draft.scope.fields.map UntaggedField.name) with
  | mk outcome after =>
      rw [hrun] at hsame hagain
      cases outcome with
      | ok tags => rw [Ledger.assign_eq_of_find? hagain hsame]
      | error fault => rw [Ledger.assign_eq_of_find? hagain hsame]

theorem MessageDraft.find?_messages_of_ne (draft : MessageDraft) (ledger : Ledger) {path : String}
    (h : path ≠ draft.schemaPath) :
    (draft.messages ledger).2.messages.find? path = ledger.messages.find? path := by
  have hother := Ledger.find?_assign_of_ne h ledger (draft.scope.fields.map UntaggedField.name)
  rw [messages]
  cases hrun : ledger.assign draft.schemaPath (draft.scope.fields.map UntaggedField.name) with
  | mk outcome after =>
      rw [hrun] at hother
      cases outcome with
      | ok tags => exact hother
      | error fault => exact hother

namespace Directory

variable {directory : Directory}

theorem messages_again {later : GenerationState}
    (hgrows : (directory.messages config set state).2.registry.Grows Site.anyLeaf later.registry)
    (hsame : later.ledger.messages.find? directory.path =
      (directory.messages config set state).2.ledger.messages.find? directory.path) :
    directory.messages config set later = ((directory.messages config set state).1, later) := by
  rw [registry_messages] at hgrows
  have hagain : (directory.draft config set).run later.registry =
      (((directory.draft config set).run state.registry).1, later.registry) :=
    (directory.repeatable_draft config set).again hgrows
  rw [messages] at hsame ⊢
  rw [messages, hagain]
  cases hdraft : (directory.draft config set).run state.registry with
  | mk outcome after =>
      rw [hdraft] at hsame
      cases outcome with
      | error errors => rfl
      | ok draft =>
          obtain ⟨hpath, _⟩ := Directory.shape_of_draft hdraft
          rw [← hpath] at hsame
          simp only [draft.messages_again hsame]

theorem find?_messages_of_ne {path : String} (h : path ≠ directory.path) :
    (directory.messages config set state).2.ledger.messages.find? path =
      state.ledger.messages.find? path := by
  rw [messages]
  cases hdraft : (directory.draft config set).run state.registry with
  | mk outcome after =>
      cases outcome with
      | error errors => rfl
      | ok draft =>
          obtain ⟨hpath, _⟩ := Directory.shape_of_draft hdraft
          exact draft.find?_messages_of_ne state.ledger (hpath ▸ h)

end Directory

namespace Site

variable {site other : Site}

/-- What the node of a site does to the ledger is what its directory does. -/
theorem ledger_messageGroup (config : Config) (set : DirectorySet) (site : Site)
    (state : GenerationState) :
    (site.messageGroup config set state).2.ledger =
      if site.ancestors.isEmpty then state.ledger
      else
        match set.find? site.pathText with
        | none => state.ledger
        | some directory => (directory.messages config set state).2.ledger := by
  rw [messageGroup]
  split
  · rfl
  · cases set.find? site.pathText with
    | none => rfl
    | some directory =>
        dsimp only
        cases directory.messages config set state with
        | mk outcome reached =>
            cases outcome with
            | error errors => rfl
            | ok messages => rfl

theorem find?_messageGroup_of_ne {path : String} (h : path ≠ site.pathText) :
    (site.messageGroup config set state).2.ledger.messages.find? path =
      state.ledger.messages.find? path := by
  rw [ledger_messageGroup]
  split
  · rfl
  · cases hfind : set.find? site.pathText with
    | none => rfl
    | some directory =>
        rw [← DirectorySet.path_eq_of_find? hfind] at h
        exact Directory.find?_messages_of_ne h

theorem messageGroup_again {later : GenerationState}
    (hgrows : (site.messageGroup config set state).2.registry.Grows anyLeaf later.registry)
    (hsame : site.ancestors.isEmpty = false → later.ledger.messages.find? site.pathText =
      (site.messageGroup config set state).2.ledger.messages.find? site.pathText) :
    site.messageGroup config set later = ((site.messageGroup config set state).1, later) := by
  cases hmodule : site.ancestors.isEmpty with
  | true => rw [messageGroup, messageGroup, hmodule]; rfl
  | false =>
      cases hfind : set.find? site.pathText with
      | none => rw [messageGroup, messageGroup, hmodule, hfind]; rfl
      | some directory =>
          have hrecord := hsame hmodule
          rw [ledger_messageGroup, hmodule, hfind, ← DirectorySet.path_eq_of_find? hfind] at hrecord
          rw [messageGroup_of_find? hmodule hfind] at hgrows ⊢
          rw [messageGroup_of_find? hmodule hfind]
          cases hmessages : directory.messages config set state with
          | mk outcome reached =>
              have hagain : (directory.messages config set state).2.registry.Grows anyLeaf
                    later.registry →
                  directory.messages config set later =
                    ((directory.messages config set state).1, later) :=
                fun hfirst => Directory.messages_again hfirst hrecord
              rw [hmessages] at hagain hgrows
              cases outcome with
              | error errors => rw [hagain hgrows]
              | ok messages =>
                  cases hpackage : Registry.packageFor config.compressPaths site
                      reached.registry with
                  | mk package ended =>
                      have hfirst : reached.registry.Grows anyLeaf
                          (Registry.packageFor config.compressPaths site reached.registry).2 :=
                        Registry.Grows.refl.package _ _
                      simp only [hpackage] at hfirst hgrows ⊢
                      have hfound := hgrows.keptBy.packages _ _
                        (Registry.keptBy_packageFor hpackage).2
                      rw [hagain (hfirst.trans hgrows)]
                      simp only [Registry.packageFor_of_find? hfound]

/-- A site whose messages are in the state already still has them there after those of another
site. -/
theorem messageGroup_behind {outcome : Except GenerationErrors MessageGroup}
    (h : site.messageGroup config set state = (outcome, state)) :
    site.messageGroup config set (other.messageGroup config set state).2 =
      (outcome, (other.messageGroup config set state).2) := by
  have hgrows : state.registry.Grows anyLeaf (other.messageGroup config set state).2.registry :=
    grows_registry (fun found _ => allAskAs_anyLeaf (found.ownFields config.compressPaths)) state
  have hledger := ledger_messageGroup config set site state
  rw [h] at hledger
  have hagain : site.messageGroup config set (other.messageGroup config set state).2 =
      ((site.messageGroup config set state).1, (other.messageGroup config set state).2) := by
    refine messageGroup_again (by rwa [h]) fun hmodule => ?_
    rw [h]
    by_cases hpath : site.pathText = other.pathText
    · -- both sites lead to one directory, which has nothing to add to the ledger
      rw [hmodule, hpath] at hledger
      simp only [Bool.false_eq_true, if_false] at hledger
      rw [ledger_messageGroup, ← hledger]
      split
      · rfl
      · rfl
    · exact find?_messageGroup_of_ne hpath
  rw [hagain, h]

end Site

namespace DirectorySet

theorem messageGroup_behind_all {site : Site} {outcome : Except GenerationErrors MessageGroup}
    (directories : List Directory) (h : site.messageGroup config set state = (outcome, state)) :
    site.messageGroup config set (set.messageGroups config directories state).2 =
      (outcome, (set.messageGroups config directories state).2) := by
  induction directories generalizing state with
  | nil => exact h
  | cons directory rest ih => exact ih (Site.messageGroup_behind h)

theorem messageGroups_again (config : Config) (set : DirectorySet) (directories : List Directory)
    (state : GenerationState) :
    set.messageGroups config directories (set.messageGroups config directories state).2 =
      set.messageGroups config directories state := by
  induction directories generalizing state with
  | nil => rfl
  | cons directory rest ih =>
      have hfirst : directory.site.messageGroup config set
          (directory.site.messageGroup config set state).2 =
            ((directory.site.messageGroup config set state).1,
              (directory.site.messageGroup config set state).2) :=
        Site.messageGroup_again .refl fun _ => rfl
      have hlast := messageGroup_behind_all rest hfirst
      simp only [messageGroups, hlast, ih]

theorem records_again (config : Config) (set : DirectorySet) (state : GenerationState) :
    set.records config (set.records config state).2 = set.records config state := by
  have hagain := messageGroups_again config set set.directories state
  simp only [records, hagain]

/-- Generating again from what a run has left gives the same files, or the same errors, and leaves
the registry and the ledger as they are. -/
theorem output_again (config : Config) (sources : Sources) (set : DirectorySet)
    (state : GenerationState) :
    set.output config sources (set.output config sources state).2 =
      set.output config sources state := by
  have hagain := set.records_again config state
  simp only [output, hagain]

end DirectorySet

end YangToProto

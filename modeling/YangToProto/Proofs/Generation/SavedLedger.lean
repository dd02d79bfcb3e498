import YangToProto.Proofs.Generation.Regeneration

/-!
# Generating from a saved ledger

A run leaves a ledger in which the next run, with names handed out anew, finds every tag that it
needs: it comes to the same files or to the same errors and leaves that ledger as it is
(`Tree.generate_again`). The names come out as before because the tags play no part in them; what a
directory has recorded stays as it is until the run ends (`DirectorySet.find?_messageGroups`).
-/

namespace YangToProto

variable {config : Config} {set : DirectorySet} {state : GenerationState} {later : Ledger}

/-- A directory whose tags are all on record gets the same messages and records nothing. -/
theorem Directory.messages_of_recorded {directory : Directory}
    (hsame : later.messages.find? directory.path =
      (directory.messages config set state).2.ledger.messages.find? directory.path) :
    directory.messages config set ⟨state.registry, later⟩ =
      ((directory.messages config set state).1,
        ⟨(directory.messages config set state).2.registry, later⟩) := by
  rw [messages] at hsame ⊢
  rw [messages]
  cases hdraft : (directory.draft config set).run state.registry with
  | mk outcome registry =>
      rw [hdraft] at hsame
      cases outcome with
      | error errors => rfl
      | ok draft =>
          obtain ⟨hpath, _⟩ := Directory.shape_of_draft hdraft
          rw [← hpath] at hsame
          simp only [draft.messages_again hsame]

theorem Site.messageGroup_of_recorded {site : Site}
    (hsame : site.ancestors.isEmpty = false → later.messages.find? site.pathText =
      (site.messageGroup config set state).2.ledger.messages.find? site.pathText) :
    site.messageGroup config set ⟨state.registry, later⟩ =
      ((site.messageGroup config set state).1,
        ⟨(site.messageGroup config set state).2.registry, later⟩) := by
  cases hmodule : site.ancestors.isEmpty with
  | true => rw [messageGroup, messageGroup, hmodule]; rfl
  | false =>
      cases hfind : set.find? site.pathText with
      | none => rw [messageGroup, messageGroup, hmodule, hfind]; rfl
      | some directory =>
          have hrecord := hsame hmodule
          rw [ledger_messageGroup, hmodule, hfind, ← DirectorySet.path_eq_of_find? hfind] at hrecord
          have hmessages := Directory.messages_of_recorded hrecord
          rw [messageGroup_of_find? hmodule hfind, messageGroup_of_find? hmodule hfind, hmessages]
          cases hrun : directory.messages config set state with
          | mk outcome reached =>
              cases outcome with
              | error errors => rfl
              | ok messages => rfl

namespace DirectorySet

/-- The record of a site that has nothing to add to it stays as it is, even if another directory
has the same path. -/
theorem find?_messageGroups (directories : List Directory) {site : Site}
    {outcome : Except GenerationErrors MessageGroup}
    (h : site.messageGroup config set state = (outcome, state))
    (hmodule : site.ancestors.isEmpty = false) :
    (set.messageGroups config directories state).2.ledger.messages.find? site.pathText =
      state.ledger.messages.find? site.pathText := by
  induction directories generalizing state with
  | nil => rfl
  | cons directory rest ih =>
      refine (ih (Site.messageGroup_behind h)).trans ?_
      by_cases hpath : site.pathText = directory.site.pathText
      · -- both sites lead to one directory, so this one has nothing to add either
        have hledger := Site.ledger_messageGroup config set site state
        rw [h, hmodule, hpath] at hledger
        simp only [Bool.false_eq_true, if_false] at hledger
        rw [Site.ledger_messageGroup, ← hledger]
        split
        · rfl
        · rfl
      · exact Site.find?_messageGroup_of_ne hpath

theorem messageGroups_of_recorded (config : Config) (set : DirectorySet)
    (directories : List Directory) (state : GenerationState)
    (hsame : ∀ directory ∈ directories, directory.site.ancestors.isEmpty = false →
      later.messages.find? directory.site.pathText =
        (set.messageGroups config directories state).2.ledger.messages.find?
          directory.site.pathText) :
    set.messageGroups config directories ⟨state.registry, later⟩ =
      ((set.messageGroups config directories state).1,
        ⟨(set.messageGroups config directories state).2.registry, later⟩) := by
  induction directories generalizing state with
  | nil => rfl
  | cons directory rest ih =>
      have hagain : directory.site.messageGroup config set
          (directory.site.messageGroup config set state).2 =
            ((directory.site.messageGroup config set state).1,
              (directory.site.messageGroup config set state).2) :=
        Site.messageGroup_again .refl fun _ => rfl
      have hfirst := Site.messageGroup_of_recorded fun hmodule =>
        (hsame directory List.mem_cons_self hmodule).trans (find?_messageGroups rest hagain hmodule)
      have hrest := ih (directory.site.messageGroup config set state).2 fun other ho =>
        hsame other (List.mem_cons_of_mem _ ho)
      simp only [messageGroups, hfirst, hrest]

theorem records_of_saved (config : Config) (set : DirectorySet) (state : GenerationState) :
    set.records config ⟨state.registry, (set.records config state).2.ledger⟩ =
      set.records config state := by
  have hgroups := messageGroups_of_recorded config set set.directories state fun _ _ _ => rfl
  simp only [records, hgroups]

end DirectorySet

/-- A run from the ledger that a run has left gives the same files, or the same errors, and leaves
the ledger as it is. -/
theorem Tree.generate_again (config : Config) (sources : Sources) (tree : Tree) (ledger : Ledger) :
    tree.generate config sources (tree.generate config sources ledger).2 =
      tree.generate config sources ledger := by
  simp only [generate, generateRecords]
  cases Registry.ready config (tree.directories config) with
  | error fault => rfl
  | ok registry =>
      have hagain := (tree.directories config).records_of_saved config ⟨registry, ledger⟩
      dsimp only at hagain ⊢
      rw [hagain]

end YangToProto

import YangToProto.Proofs.Generation.Regeneration

/-!
# Runs over one ledger

A run reads and writes the ledger only at the paths of its own directories, also when it fails
half-way (`Tree.generate_of_agrees`, `Tree.find?_generate_of_not`). Where no name holds a slash, the
paths of two modules of different names are different, so that the modules may be generated in
either order (`Tree.generate_comm`).
-/

namespace YangToProto

variable {config : Config} {set : DirectorySet} {paths : String → Prop}

/-- The states have the same names, and the same records of the messages at some paths. -/
structure GenerationState.Agrees (paths : String → Prop) (state other : GenerationState) :
    Prop where
  registry : other.registry = state.registry
  ledger : ∀ path, paths path →
    other.ledger.messages.find? path = state.ledger.messages.find? path

/-- The step does nothing with the ledger but to read and write the records of the messages at
some paths. -/
structure Framed {α : Type} (paths : String → Prop)
    (step : GenerationState → α × GenerationState) : Prop where
  reads : ∀ {state other : GenerationState}, state.Agrees paths other →
    (step other).1 = (step state).1 ∧ (step state).2.Agrees paths (step other).2
  writes : ∀ (state : GenerationState) {path : String}, ¬ paths path →
    (step state).2.ledger.messages.find? path = state.ledger.messages.find? path

namespace Ledger

variable {ledger other : Ledger} {path : String}

/-- An assignment reads the record of its message only. -/
theorem assign_of_same (h : other.messages.find? path = ledger.messages.find? path)
    (fields : List String) :
    (other.assign path fields).1 = (ledger.assign path fields).1 ∧
      (other.assign path fields).2.messages.find? path =
        (ledger.assign path fields).2.messages.find? path := by
  have htags : other.fieldTags path = ledger.fieldTags path := by rw [fieldTags, fieldTags, h]
  rw [assign_eq, assign_eq, htags]
  exact ⟨rfl, by rw [SortedMap.find?_insert_self, SortedMap.find?_insert_self]⟩

end Ledger

theorem MessageDraft.messages_of_same (draft : MessageDraft) {ledger other : Ledger}
    (h : other.messages.find? draft.schemaPath = ledger.messages.find? draft.schemaPath) :
    (draft.messages other).1 = (draft.messages ledger).1 ∧
      (draft.messages other).2.messages.find? draft.schemaPath =
        (draft.messages ledger).2.messages.find? draft.schemaPath := by
  have hassign := Ledger.assign_of_same h (draft.scope.fields.map UntaggedField.name)
  rw [messages, messages]
  cases hrun : ledger.assign draft.schemaPath (draft.scope.fields.map UntaggedField.name) with
  | mk outcome after =>
      cases hrun' : other.assign draft.schemaPath (draft.scope.fields.map UntaggedField.name) with
      | mk outcome' after' =>
          rw [hrun, hrun'] at hassign
          obtain ⟨rfl, hrecord⟩ := hassign
          cases outcome' with
          | ok tags => exact ⟨rfl, hrecord⟩
          | error fault => exact ⟨rfl, hrecord⟩

theorem Directory.framed_messages (config : Config) (set : DirectorySet) {directory : Directory}
    (h : paths directory.path) : Framed paths (directory.messages config set) where
  reads := fun {state other} hagrees => by
    rw [messages, messages, hagrees.registry]
    cases hdraft : (directory.draft config set).run state.registry with
    | mk outcome registry =>
        cases outcome with
        | error errors => exact ⟨rfl, rfl, hagrees.ledger⟩
        | ok draft =>
            obtain ⟨hpath, _⟩ := Directory.shape_of_draft hdraft
            obtain ⟨houtcome, hrecord⟩ :=
              draft.messages_of_same (hagrees.ledger draft.schemaPath (hpath ▸ h))
            refine ⟨houtcome, rfl, fun path hp => ?_⟩
            by_cases hsame : path = draft.schemaPath
            · exact hsame ▸ hrecord
            · exact (draft.find?_messages_of_ne _ hsame).trans
                ((hagrees.ledger path hp).trans (draft.find?_messages_of_ne _ hsame).symm)
  writes := fun state {path} hp => find?_messages_of_ne fun heq => hp (heq ▸ h)

theorem Site.framed_messageGroup (config : Config) (set : DirectorySet) {site : Site}
    (h : paths site.pathText) : Framed paths (site.messageGroup config set) where
  reads := fun {state other} hagrees => by
    cases hmodule : site.ancestors.isEmpty with
    | true =>
        rw [messageGroup, messageGroup, hmodule]
        exact ⟨rfl, hagrees⟩
    | false =>
        cases hfind : set.find? site.pathText with
        | none =>
            rw [messageGroup, messageGroup, hmodule, hfind]
            exact ⟨rfl, hagrees⟩
        | some directory =>
            have hpath : paths directory.path := DirectorySet.path_eq_of_find? hfind ▸ h
            have hmessages := (Directory.framed_messages config set hpath).reads hagrees
            rw [messageGroup_of_find? hmodule hfind, messageGroup_of_find? hmodule hfind]
            cases hrun : directory.messages config set state with
            | mk outcome reached =>
                cases hrun' : directory.messages config set other with
                | mk outcome' reached' =>
                    rw [hrun, hrun'] at hmessages
                    obtain ⟨rfl, hreached⟩ := hmessages
                    cases outcome' with
                    | error errors => exact ⟨rfl, hreached⟩
                    | ok messages =>
                        dsimp only
                        rw [hreached.registry]
                        exact ⟨rfl, rfl, hreached.ledger⟩
  writes := fun state {path} hp => find?_messageGroup_of_ne fun heq => hp (heq ▸ h)

namespace DirectorySet

theorem framed_messageGroups (config : Config) (set : DirectorySet) {directories : List Directory}
    (h : ∀ directory ∈ directories, paths directory.site.pathText) :
    Framed paths (set.messageGroups config directories) := by
  induction directories with
  | nil => exact ⟨fun hagrees => ⟨rfl, hagrees⟩, fun _ _ _ => rfl⟩
  | cons directory rest ih =>
      have hfirst := Site.framed_messageGroup config set (h directory List.mem_cons_self)
      have hrest := ih fun other ho => h other (List.mem_cons_of_mem _ ho)
      constructor
      · intro state other hagrees
        obtain ⟨houtcome, hreached⟩ := hfirst.reads hagrees
        obtain ⟨houtcomes, hended⟩ := hrest.reads hreached
        simp only [messageGroups]
        rw [houtcome, houtcomes]
        exact ⟨rfl, hended⟩
      · intro state path hp
        exact (hrest.writes _ hp).trans (hfirst.writes state hp)

theorem framed_records (config : Config) (set : DirectorySet)
    (h : ∀ directory ∈ set.directories, paths directory.site.pathText) :
    Framed paths (set.records config) := by
  have hgroups := framed_messageGroups config set h
  constructor
  · intro state other hagrees
    obtain ⟨houtcomes, hended⟩ := hgroups.reads hagrees
    simp only [records]
    rw [houtcomes, hended.registry]
    exact ⟨rfl, hended⟩
  · exact fun state _ hp => hgroups.writes state hp

end DirectorySet

namespace Tree

variable {tree other : Tree} {ledger : Ledger}

/-- The text is the path of a directory of the tree. -/
def HasDirectory (config : Config) (tree : Tree) (path : String) : Prop :=
  ∃ directory ∈ (tree.directories config).directories, directory.path = path

theorem HasDirectory.exists_site {path : String} (h : tree.HasDirectory config path) :
    ∃ site, tree.HasSite site ∧ site.pathText = path := by
  obtain ⟨directory, hd, rfl⟩ := h
  obtain ⟨site, hsite, _, rfl⟩ := DirectorySet.mem_collect_iff.1 hd
  exact ⟨site, hsite, rfl⟩

/-- Without slashes in names, a directory's path tells the name of its module. -/
theorem not_hasDirectory_both (hslash : tree.SlashFree) (hslash' : other.SlashFree)
    (hname : tree.root.name ≠ other.root.name) {path : String}
    (h : tree.HasDirectory config path) : ¬ other.HasDirectory config path := by
  intro h'
  obtain ⟨site, hsite, htext⟩ := h.exists_site
  obtain ⟨site', hsite', htext'⟩ := h'.exists_site
  have hpath : site.path = site'.path :=
    pathText_injective site.path_ne_nil site'.path_ne_nil (hsite.slash_notin_path hslash)
      (hsite'.slash_notin_path hslash') (htext.trans htext'.symm)
  exact hname (Site.name_eq_of_paths_above (hpath ▸ hsite.path_prefix) hsite'.path_prefix)

theorem framed_records (config : Config) (tree : Tree) :
    Framed (tree.HasDirectory config) ((tree.directories config).records config) := by
  refine DirectorySet.framed_records config _ fun directory hd => ⟨directory, hd, ?_⟩
  obtain ⟨site, _, _, rfl⟩ := DirectorySet.mem_collect_iff.1 hd
  rfl

/-- A run reads no records in the ledger but those of the tree's directories. -/
theorem generate_of_agrees (config : Config) (sources : Sources) {later : Ledger}
    (h : ∀ path, tree.HasDirectory config path →
      later.messages.find? path = ledger.messages.find? path) :
    (tree.generate config sources later).1 = (tree.generate config sources ledger).1 ∧
      ∀ path, tree.HasDirectory config path →
        (tree.generate config sources later).2.messages.find? path =
          (tree.generate config sources ledger).2.messages.find? path := by
  simp only [generate, generateRecords]
  cases Registry.ready config (tree.directories config) with
  | error fault => exact ⟨rfl, h⟩
  | ok registry =>
      have hagrees : GenerationState.Agrees (tree.HasDirectory config) ⟨registry, ledger⟩
          ⟨registry, later⟩ := ⟨rfl, h⟩
      obtain ⟨hrecords, hended⟩ := (tree.framed_records config).reads hagrees
      dsimp only
      rw [hrecords]
      exact ⟨rfl, hended.ledger⟩

/-- A run, failing or not, writes no records in the ledger but those of the tree's directories. -/
theorem find?_generate_of_not (config : Config) (sources : Sources) (ledger : Ledger)
    {path : String} (h : ¬ tree.HasDirectory config path) :
    (tree.generate config sources ledger).2.messages.find? path =
      ledger.messages.find? path := by
  simp only [generate, generateRecords]
  cases Registry.ready config (tree.directories config) with
  | error fault => rfl
  | ok registry => exact (tree.framed_records config).writes ⟨registry, ledger⟩ h

/-- A run for a tree with other directories makes no difference to a run for this one. -/
theorem generate_behind (config : Config) (sources : Sources)
    (hdisjoint : ∀ path, tree.HasDirectory config path → ¬ other.HasDirectory config path)
    (ledger : Ledger) :
    (tree.generate config sources (other.generate config sources ledger).2).1 =
        (tree.generate config sources ledger).1 ∧
      ∀ path, tree.HasDirectory config path →
        (tree.generate config sources (other.generate config sources ledger).2).2.messages.find?
            path =
          (tree.generate config sources ledger).2.messages.find? path :=
  generate_of_agrees config sources fun path hpath =>
    find?_generate_of_not config sources ledger (hdisjoint path hpath)

/-- Runs for two trees without a common directory leave the same ledger in either order. -/
theorem ledger_generate_comm (config : Config) (sources : Sources)
    (hdisjoint : ∀ path, tree.HasDirectory config path → ¬ other.HasDirectory config path)
    (ledger : Ledger) :
    (other.generate config sources (tree.generate config sources ledger).2).2 =
      (tree.generate config sources (other.generate config sources ledger).2).2 := by
  have hdisjoint' : ∀ path, other.HasDirectory config path → ¬ tree.HasDirectory config path :=
    fun path h h' => hdisjoint path h' h
  have hrecord : ∀ path,
      (other.generate config sources (tree.generate config sources ledger).2).2.messages.find?
          path =
        (tree.generate config sources (other.generate config sources ledger).2).2.messages.find?
          path := by
    intro path
    by_cases h : tree.HasDirectory config path
    · rw [find?_generate_of_not config sources _ (hdisjoint path h),
        (generate_behind config sources hdisjoint ledger).2 path h]
    · rw [find?_generate_of_not config sources _ h]
      by_cases h' : other.HasDirectory config path
      · exact (generate_behind config sources hdisjoint' ledger).2 path h'
      · rw [find?_generate_of_not config sources _ h', find?_generate_of_not config sources _ h,
          find?_generate_of_not config sources _ h']
  exact congrArg Ledger.mk (SortedMap.ext_find? hrecord)

/-- A run touches no record in the ledger but those of the tree's directories. Two trees of
different module names may be generated in either order: each gets what it gets alone, and the
ledger comes out the same. -/
theorem generate_comm (config : Config) (sources : Sources) (tree : Tree) (ledger : Ledger) :
    (∀ path, (∀ directory ∈ (tree.directories config).directories, directory.path ≠ path) →
      (tree.generate config sources ledger).2.messages.find? path =
        ledger.messages.find? path) ∧
    ∀ other : Tree, tree.SlashFree → other.SlashFree → tree.root.name ≠ other.root.name →
      (other.generate config sources (tree.generate config sources ledger).2).1 =
        (other.generate config sources ledger).1 ∧
      (tree.generate config sources (other.generate config sources ledger).2).1 =
        (tree.generate config sources ledger).1 ∧
      (other.generate config sources (tree.generate config sources ledger).2).2 =
        (tree.generate config sources (other.generate config sources ledger).2).2 := by
  refine ⟨fun path hpath => ?_, fun other hslash hslash' hname => ?_⟩
  · refine find?_generate_of_not config sources ledger ?_
    rintro ⟨directory, hd, heq⟩
    exact hpath directory hd heq
  · have hdisjoint : ∀ path, tree.HasDirectory config path → ¬ other.HasDirectory config path :=
      fun _ => not_hasDirectory_both hslash hslash' hname
    have hdisjoint' : ∀ path, other.HasDirectory config path → ¬ tree.HasDirectory config path :=
      fun _ => not_hasDirectory_both hslash' hslash hname.symm
    exact ⟨(generate_behind config sources hdisjoint' ledger).1,
      (generate_behind config sources hdisjoint ledger).1,
      ledger_generate_comm config sources hdisjoint ledger⟩

theorem generate_comm_two_modules :
    let top := Node.container "top" [Node.leaf "x" .string]
    let tree := copyOf (Node.module "m" [top])
    let other := copyOf (Node.module "n" [top])
    let first := tree.generate {} {} ∅
    let second := other.generate {} {} ∅
    tree.SlashFree ∧ other.SlashFree ∧ tree.root.name ≠ other.root.name ∧
      (other.generate {} {} first.2).1 = second.1 ∧ (tree.generate {} {} second.2).1 = first.1 ∧
      (other.generate {} {} first.2).2 = (tree.generate {} {} second.2).2 ∧
      first.2.messages.find? "/n/top" = none ∧
      (other.generate {} {} first.2).2.messages.keys = ["/m/top", "/n/top"] := by
  intro top tree other first second
  have hslash : tree.SlashFree := slashFree_of_sites (by decide +kernel)
  have hslash' : other.SlashFree := slashFree_of_sites (by decide +kernel)
  have hname : tree.root.name ≠ other.root.name := by decide
  obtain ⟨huntouched, hcomm⟩ := generate_comm {} {} tree ∅
  obtain ⟨hsecond, hfirst, hledger⟩ := hcomm other hslash hslash' hname
  exact ⟨hslash, hslash', hname, hsecond, hfirst, hledger,
    huntouched "/n/top" (by decide +kernel), by decide +kernel⟩

end Tree

end YangToProto

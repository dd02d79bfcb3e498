import Mathlib.Data.List.Perm.Basic
import YangToProto.Proofs.Generation.Records
import YangToProto.Proofs.Naming.Prepass

/-!
# Names given on first use

A run that starts with the cold registry names each directory and then the key wrappers of the
lists among its fields (`Tree.comesFrom_of_cold`). It never comes to a list before the message of
that list has been named, because children come before their parents (`Tree.holds_in_turn`).
-/

namespace YangToProto

variable {config : Config} {tree : Tree} {set : DirectorySet} {owners : List Owner}
  {home field site : Site} {registry after : Registry}

/-- What leaves do changes no names of packages and messages. -/
theorem LeafStep.sameNames {asks : Site → LeafType → Prop} {α : Type} {step : Naming α}
    (h : LeafStep asks step) : ∀ registry : Registry, registry.SameNames (step registry).2 := by
  induction h with
  | pure value => exact Registry.SameNames.refl
  | throw _ => exact Registry.SameNames.refl
  | lift_except _ => exact Registry.SameNames.refl
  | shared _ => exact Registry.sameNames_sharedEnumName _ _
  | bind _ _ ih ih' =>
      exact Moves.bind (r := Registry.SameNames) (fun _ _ _ => Registry.SameNames.trans) ih ih'

theorem Site.sameNames_keyFields (list : Site) (keys : List String) (registry : Registry) :
    registry.SameNames (list.keyFields config set keys registry).2 := by
  induction keys generalizing registry with
  | nil => exact .refl registry
  | cons key rest ih =>
      have hkey : LeafStep anyLeaf (list.keyField config set key) :=
        leafStep_keyField fun leaf _ => leaf.asksAs_anyLeaf
      rw [keyFields_cons]
      exact (hkey.sameNames registry).trans (ih _)

namespace Registry

variable {package : String}

/-!
## One directory in turn
-/

theorem ComesFrom.messageReference (h : registry.ComesFrom config tree owners)
    (howner : .directory site ∈ owners) {reference : String × String}
    (hrun : site.messageReference config registry = (.ok reference, after)) :
    after = registry ∧ registry.messages.find? site.pathText = some reference.1 := by
  obtain ⟨own, found, hown, hfound⟩ := h.place_again howner
  obtain ⟨name, first, hname, hrest⟩ := bind_eq_ok hrun
  obtain ⟨home, second, hhome, hpure⟩ := bind_eq_ok hrest
  obtain ⟨rfl, rfl⟩ := pure_eq_ok hpure
  rw [messageName_of_find? hfound] at hname
  cases hname
  have hsame := lift_state_eq_ok hhome
  rw [packageFor_of_find? hown] at hsame
  cases hsame
  exact ⟨rfl, hfound⟩

theorem ComesFrom.draft (hroot : tree.root.Distinct) (hslash : tree.SlashFree)
    (h : registry.ComesFrom config tree owners) (hfield : tree.Holds config owners home field)
    (hpackage : registry.packages.find? (home.anchor config.compressPaths) = some package)
    (hnodup : (owners ++ field.keyOwners).Nodup) {path name : String} {draft : FieldDraft}
    (hrun : field.draft config set path package name registry = (.ok draft, after)) :
    after.ComesFrom config tree (owners ++ field.keyOwners) := by
  rcases Site.draft_cases hrun with ⟨hkind, hkeyed, _, hleaf⟩ |
    ⟨hkind, hkeyed, _, reference, hreference, _⟩ |
    ⟨hkeyed, reference, middle, wrapper, hreference, hwrapper, _⟩
  · have hstep : LeafStep Site.anyLeaf (field.leafField config) :=
      Site.leafStep_leafField hkind field.asksAs_anyLeaf
    have hsame := hstep.sameNames registry
    rw [hleaf] at hsame
    rw [Site.keyOwners, if_neg (by simp [hkeyed]), List.append_nil]
    exact h.of_sameNames hsame
  · obtain ⟨rfl, _⟩ := h.messageReference (hfield.named hkind) hreference
    rwa [Site.keyOwners, if_neg (by simp [hkeyed]), List.append_nil]
  · have howner := hfield.named (Node.isDirectory_of_isKeyedList hkeyed)
    obtain ⟨rfl, hmessage⟩ := h.messageReference howner hreference
    obtain ⟨name, second, keys, _, hname, hkeys, _⟩ := Site.of_keyWrapper hwrapper
    have hsecond := h.keyOwners hroot hslash hfield hpackage hkeyed hnodup hmessage hname
    have hsame : second.SameNames (field.keyFields config set field.node.key second).2 :=
      field.sameNames_keyFields _ _
    rw [hkeys] at hsame
    exact hsecond.of_sameNames hsame

theorem ComesFrom.drafts (hroot : tree.root.Distinct) (hslash : tree.SlashFree)
    (h : registry.ComesFrom config tree owners) {fields : List (String × Site)}
    (hfields : ∀ field ∈ fields, tree.Holds config owners home field.2)
    (hpackage : registry.packages.find? (home.anchor config.compressPaths) = some package)
    (hnodup : (owners ++ fields.flatMap fun field => field.2.keyOwners).Nodup) {path : String}
    {drafts : List FieldDraft}
    (hrun : Site.drafts config set path package fields registry = (drafts.map .ok, after)) :
    after.ComesFrom config tree (owners ++ fields.flatMap fun field => field.2.keyOwners) := by
  induction fields generalizing registry owners drafts with
  | nil =>
      rw [← (Prod.mk.inj hrun).2, List.flatMap_nil, List.append_nil]
      exact h
  | cons field rest ih =>
      obtain ⟨draft, more, middle, others, rfl, hfirst, hothers, hmore⟩ :=
        Site.of_drafts_cons hrun (GenerationErrors.gather_eq_ok_iff.2 rfl)
      rw [GenerationErrors.gather_eq_ok_iff.1 hmore] at hothers
      rw [List.flatMap_cons, ← List.append_assoc] at hnodup ⊢
      have hmiddle := h.draft hroot hslash (hfields field List.mem_cons_self) hpackage
        (List.nodup_append.1 hnodup).1 hfirst
      have hdraft : Steady Site.anyLeaf (field.2.draft config set path package field.1) :=
        Site.steady_draft field.2.asksAs_anyLeaf fun _ leaf _ => leaf.asksAs_anyLeaf
      have hgrows := hdraft.grows registry
      rw [hfirst] at hgrows
      exact ih hmiddle (fun other ho => (hfields other (List.mem_cons_of_mem _ ho)).mono _)
        (hgrows.keptBy.packages _ _ hpackage) hnodup hothers

end Registry

/-- The owners that a directory names on first use, in order. -/
def Directory.ownersInTurn (compress : Bool) (directory : Directory) : List Owner :=
  .directory directory.site ::
    (directory.ownFields compress).flatMap fun field => field.2.keyOwners

/-- The owners that a run names on first use, in order. -/
def Tree.ownersInTurn (config : Config) (tree : Tree) : List Owner :=
  (tree.directories config).directories.flatMap (Directory.ownersInTurn config.compressPaths)

theorem Directory.perm_ownersInTurn (compress : Bool) (directory : Directory) :
    (directory.owners compress).Perm (directory.ownersInTurn compress) :=
  List.perm_append_singleton _ _

theorem Tree.perm_ownersInTurn (config : Config) (tree : Tree) :
    (tree.owners config).Perm (tree.ownersInTurn config) :=
  List.Perm.flatMap_left _ fun directory _ => directory.perm_ownersInTurn config.compressPaths

theorem Tree.nodup_ownersInTurn (hroot : tree.root.Distinct) : (tree.ownersInTurn config).Nodup :=
  (tree.perm_ownersInTurn config).nodup_iff.1 (nodup_owners hroot)

theorem Registry.ComesFrom.directory (hroot : tree.root.Distinct) (hslash : tree.SlashFree)
    (h : registry.ComesFrom config tree owners) {directory : Directory}
    (hsite : tree.HasSite directory.site)
    (hfields : ∀ field ∈ directory.ownFields config.compressPaths,
      tree.Holds config (owners ++ [.directory directory.site]) directory.site field.2)
    (hnodup : (owners ++ directory.ownersInTurn config.compressPaths).Nodup)
    {draft : MessageDraft} (hrun : directory.draft config set registry = (.ok draft, after)) :
    after.ComesFrom config tree (owners ++ directory.ownersInTurn config.compressPaths) := by
  obtain ⟨first, second, fields, hname, hpackage, hdrafts, _⟩ := directory.of_draft hrun
  have hfirst := h.messageName hroot hslash hsite (not_mem_of_nodup_append hnodup) hname
  have hself : Owner.directory directory.site ∈ owners ++ [.directory directory.site] := by simp
  obtain ⟨own, _, hown, _⟩ := hfirst.place_again hself
  rw [packageFor_of_find? hown] at hpackage
  obtain ⟨rfl, rfl⟩ := Prod.mk.inj hpackage
  rw [Directory.ownersInTurn, List.append_cons] at hnodup ⊢
  exact hfirst.drafts hroot hslash hfields hown hnodup hdrafts

/-!
## Whole runs in turn
-/

/-- The message that holds a node is a proper ancestor. -/
theorem Site.ne_of_holder? {compress : Bool} {site holder : Site}
    (h : site.holder? compress = some holder) : site ≠ holder := by
  have hlength : ∀ above : List Node, holderAmong? compress above = some holder →
      holder.ancestors.length < above.length := by
    intro above hfound
    induction above with
    | nil => cases hfound
    | cons node above ih =>
        cases above with
        | nil => cases hfound
        | cons parent more =>
            rw [holderAmong?_cons _ (List.cons_ne_nil _ _)] at hfound
            split at hfound
            · exact Nat.lt_succ_of_lt (ih hfound)
            · cases hfound
              exact Nat.lt_succ_self _
  rintro rfl
  exact Nat.lt_irrefl _ (hlength _ h)

/-- A directory is named after those that its fields lead to. -/
theorem Tree.holds_in_turn (hroot : tree.root.Distinct) {front back : List Directory}
    {directory : Directory}
    (hsplit : front ++ directory :: back = (tree.directories config).directories)
    {field : String × Site} (hfield : field ∈ directory.fields.entries) :
    tree.Holds config (front.flatMap (Directory.ownersInTurn config.compressPaths))
      directory.site field.2 := by
  have hd : directory ∈ (tree.directories config).directories := hsplit ▸ by simp
  have horder : (front ++ directory :: back).Pairwise fun one other =>
      ¬ one.site.Under other.site := hsplit ▸ DirectorySet.pairwise_collect hroot
  refine Tree.holds_of_field hd hfield fun other ho hunder hholder => ?_
  rw [← hsplit] at ho
  have hfront : other ∈ front := by
    rcases List.mem_append.1 ho with ho | ho
    · exact ho
    · obtain ⟨_, hback, _⟩ := List.pairwise_append.1 horder
      rcases List.mem_cons.1 ho with rfl | ho
      · exact absurd rfl (Site.ne_of_holder? hholder)
      · exact absurd hunder ((List.pairwise_cons.1 hback).1 other ho)
  exact List.mem_flatMap.2 ⟨other, hfront, List.mem_cons_self⟩

theorem Registry.ComesFrom.messageGroup (hroot : tree.root.Distinct) (hslash : tree.SlashFree)
    {front back : List Directory} {directory : Directory}
    (hsplit : front ++ directory :: back = (tree.directories config).directories)
    {state ended : GenerationState} {group : MessageGroup}
    (h : state.registry.ComesFrom config tree
      (front.flatMap (Directory.ownersInTurn config.compressPaths)))
    (hrun : directory.site.messageGroup config (tree.directories config) state =
      (.ok group, ended)) :
    ended.registry.ComesFrom config tree
      ((front ++ [directory]).flatMap (Directory.ownersInTurn config.compressPaths)) := by
  have hd : directory ∈ (tree.directories config).directories := hsplit ▸ by simp
  have hnodup : (tree.ownersInTurn config).Nodup := Tree.nodup_ownersInTurn hroot
  rw [Tree.ownersInTurn, ← hsplit, List.append_cons, List.flatMap_append] at hnodup
  obtain ⟨found, draft, tags, middle, package, hfound, hdraft, _, hpackage, rfl⟩ :=
    Site.of_messageGroup hrun
  obtain ⟨site, hsite, _, rfl⟩ := DirectorySet.mem_collect_iff.1 hd
  obtain rfl := Option.some.inj ((DirectorySet.find?_collect hroot hslash hd).symm.trans hfound)
  rw [List.flatMap_append, List.flatMap_singleton] at hnodup ⊢
  have hmiddle := h.directory hroot hslash hsite (fun field hfield =>
    (Tree.holds_in_turn hroot hsplit (List.mem_filter.1 hfield).1).mono _)
    (List.nodup_append.1 hnodup).1 hdraft
  obtain ⟨own, _, hown, _⟩ := hmiddle.place_again
    (List.mem_append_right _ List.mem_cons_self)
  rw [Registry.packageFor_of_find? hown] at hpackage
  cases hpackage
  exact hmiddle

theorem Registry.ComesFrom.messageGroups (hroot : tree.root.Distinct) (hslash : tree.SlashFree)
    {front rest : List Directory}
    (hsplit : front ++ rest = (tree.directories config).directories)
    {state ended : GenerationState} {outcomes : List (Except GenerationErrors MessageGroup)}
    {groups : List MessageGroup}
    (h : state.registry.ComesFrom config tree
      (front.flatMap (Directory.ownersInTurn config.compressPaths)))
    (hrun : (tree.directories config).messageGroups config rest state = (outcomes, ended))
    (hgather : GenerationErrors.gather outcomes = .ok groups) :
    ended.registry.ComesFrom config tree (tree.ownersInTurn config) := by
  induction rest generalizing front state outcomes groups with
  | nil =>
      cases hrun
      rwa [Tree.ownersInTurn, ← hsplit, List.append_nil]
  | cons directory rest ih =>
      obtain ⟨group, more, reached, others, rfl, hfirst, hothers, hmore⟩ :=
        DirectorySet.of_messageGroups_cons hrun hgather
      have hreached := Registry.ComesFrom.messageGroup hroot hslash hsplit h hfirst
      rw [List.append_cons] at hsplit
      exact ih hsplit hreached hothers hmore

/-- A run that starts with the cold registry names the owners of the tree directory by
directory. -/
theorem Tree.comesFrom_of_cold (hroot : tree.root.Distinct) (hslash : tree.SlashFree)
    {ledger : Ledger} {records : GeneratedRecords} {ended : GenerationState}
    (h : (tree.directories config).records config ⟨Registry.cold config, ledger⟩ =
      (.ok records, ended)) :
    ended.registry.ComesFrom config tree (tree.ownersInTurn config) := by
  obtain ⟨outcomes, hrun, hgather, _⟩ := DirectorySet.of_records h
  refine Registry.ComesFrom.messageGroups hroot hslash (List.nil_append _) ?_ hrun hgather
  exact Registry.comesFrom_cold config tree

end YangToProto

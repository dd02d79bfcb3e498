import YangToProto.Proofs.Generation.DraftParts

/-!
# The steps of a draft

Drafting a message is put together from few kinds of step (`DraftStep`): it asks for the name of a
message and for its package, for the name of a key wrapper, or for what a leaf needs; it may find a
fault in the schema; and it tries steps one after the other before it looks at what has gone wrong
(`tryAll`). Which messages and key wrappers it may ask for is a parameter, and so is which shared
enums its leaves may ask for. What holds of each kind of step and carries over to steps put together
holds of every draft (`Directory.draftStep`).

So every draft is steady (`Directory.steady_draft`): it lets the registry grow, shared enums are
asked for by the leaves of the message alone, and in the registry that a run ends with it gives the
same draft again.
-/

namespace YangToProto

/-- The outcomes of steps that are tried one after the other, whether or not they succeed. -/
def tryAll {α : Type} : List (Drafting α) → StateM Registry (List (Except GenerationErrors α))
  | [] => return []
  | step :: rest => do
    let outcome ← step.run
    let others ← tryAll rest
    return outcome :: others

theorem tryAll_cons {α : Type} (step : Drafting α) (rest : List (Drafting α))
    (registry : Registry) :
    tryAll (step :: rest) registry =
      ((step registry).1 :: (tryAll rest (step registry).2).1,
        (tryAll rest (step registry).2).2) := rfl

/-- What a drafting step consists of, where only certain messages and key wrappers are asked for,
and the leaves ask for certain shared enums. -/
inductive DraftStep (compress : Bool) (leaves : Site → LeafType → Prop) (asks : Owner → Prop) :
    {α : Type} → Drafting α → Prop where
  | pure {α : Type} (value : α) : DraftStep compress leaves asks (pure value : Drafting α)
  | throw {α : Type} {error : GenerationError} (h : error.isNaming = false) :
      DraftStep compress leaves asks (throw [error] : Drafting α)
  | package {site : Site} (h : asks (.directory site)) :
      DraftStep compress leaves asks (liftM (Registry.packageFor compress site) : Drafting String)
  | message {site : Site} (h : asks (.directory site)) :
      DraftStep compress leaves asks (Registry.messageName compress site).drafting
  | keyMessage {list : Site} (h : asks (.keys list)) (listMessage package : String) :
      DraftStep compress leaves asks (Registry.keyMessageName list listMessage package).drafting
  | leaf {α : Type} {step : Naming α} (h : LeafStep leaves step) :
      DraftStep compress leaves asks step.drafting
  | bind {α β : Type} {step : Drafting α} {next : α → Drafting β}
      (h : DraftStep compress leaves asks step)
      (h' : ∀ value, DraftStep compress leaves asks (next value)) :
      DraftStep compress leaves asks (step >>= next)
  | collect {α β : Type} {steps : List (Drafting α)} {next : List α → Drafting β}
      (h : ∀ step ∈ steps, DraftStep compress leaves asks step)
      (h' : ∀ values, DraftStep compress leaves asks (next values)) :
      DraftStep compress leaves asks (do
        let outcomes ← tryAll steps
        let values ← (GenerationErrors.gather outcomes : Except _ _)
        next values : Drafting β)

variable {config : Config} {set : DirectorySet} {leaves : Site → LeafType → Prop}
  {asks : Owner → Prop} {list field : Site} {registry after later : Registry}

/-!
## Drafts are put together from such steps
-/

theorem Naming.drafting_apply {α : Type} (step : Naming α) (registry : Registry) :
    step.drafting registry =
      ((step registry).1.mapError fun error => [error], (step registry).2) := rfl

theorem Naming.drafting_bind {α β : Type} (step : Naming α) (next : α → Naming β) :
    Naming.drafting (step >>= next) =
      (step.drafting >>= fun value => (next value).drafting : Drafting β) := by
  funext registry
  rw [bind_apply, drafting_apply, drafting_apply, bind_apply]
  cases step registry with
  | mk outcome after =>
      cases outcome with
      | ok value => rfl
      | error fault => rfl

namespace Site

theorem keyFields_eq (config : Config) (set : DirectorySet) (list : Site) (keys : List String) :
    list.keyFields config set keys = tryAll (keys.map fun key => do
      let type ← (list.keyField config set key).drafting
      return (⟨key, type, false, [], none⟩ : FieldDraft)) := by
  induction keys with
  | nil => rfl
  | cons key rest ih =>
      funext registry
      rw [List.map_cons, tryAll_cons, keyFields_cons, ih, bind_apply]
      cases (list.keyField config set key).drafting registry with
      | mk outcome after =>
          cases outcome with
          | ok type => rfl
          | error errors => rfl

theorem drafts_eq (config : Config) (set : DirectorySet) (path package : String)
    (fields : List (String × Site)) :
    drafts config set path package fields =
      tryAll (fields.map fun field => field.2.draft config set path package field.1) := by
  induction fields with
  | nil => rfl
  | cons field rest ih =>
      funext registry
      rw [List.map_cons, tryAll_cons, drafts_cons, ih]

theorem asksAs_anyLeaf (site : Site) : site.AsksAs anyLeaf := fun _ _ _ => trivial

/-- What the leaves among some fields and the keys of the lists among them may ask for. -/
def AllAskAs (leaves : Site → LeafType → Prop) (config : Config) (set : DirectorySet)
    (fields : List (String × Site)) : Prop :=
  ∀ field ∈ fields, field.2.AsksAs leaves ∧ (field.2.node.isKeyedList = true →
    ∀ leaf ∈ (Owner.keys field.2).fields config set, leaf.AsksAs leaves)

theorem allAskAs_anyLeaf (fields : List (String × Site)) : AllAskAs anyLeaf config set fields :=
  fun field _ => ⟨field.2.asksAs_anyLeaf, fun _ leaf _ => leaf.asksAs_anyLeaf⟩

theorem draftStep_messageReference {site : Site} (h : asks (.directory site)) :
    DraftStep config.compressPaths leaves asks (site.messageReference config).drafting := by
  rw [messageReference, Naming.drafting_bind]
  refine .bind (.message h) fun name => ?_
  rw [Naming.drafting_bind]
  exact .bind (.package h) fun package => .pure (name, package)

theorem draftStep_keyField {compress : Bool} {key : String}
    (h : ∀ leaf, list.keyLeaf? set key = some leaf → leaf.AsksAs leaves) :
    DraftStep compress leaves asks (do
      let type ← (list.keyField config set key).drafting
      return (⟨key, type, false, [], none⟩ : FieldDraft)) :=
  .bind (.leaf (leafStep_keyField h)) fun _ => .pure _

theorem draftStep_keyWrapper (h : asks (.keys list))
    (hleaves : ∀ leaf ∈ (Owner.keys list).fields config set, leaf.AsksAs leaves)
    (package listMessage listPackage : String) :
    DraftStep config.compressPaths leaves asks
      (list.keyWrapper config set package listMessage listPackage) := by
  rw [keyWrapper, keyFields_eq]
  refine .bind (.keyMessage h listMessage package) fun name => ?_
  refine .collect (fun step hstep => ?_) fun keys => .pure _
  obtain ⟨key, hkey, rfl⟩ := List.mem_map.1 hstep
  refine draftStep_keyField fun leaf hleaf => hleaves leaf (List.mem_append_left _ ?_)
  exact List.mem_filterMap.2 ⟨key, hkey, hleaf⟩

/-- What the draft of a field may ask for: its own message, and its key wrapper if it is a keyed
list. -/
structure MayAsk (asks : Owner → Prop) (field : Site) : Prop where
  message : field.kind.isDirectory = true → asks (.directory field)
  keys : field.node.isKeyedList = true → asks (.keys field)

theorem draftStep_draft (h : field.MayAsk asks) (hleaf : field.AsksAs leaves)
    (hkeys : field.node.isKeyedList = true →
      ∀ leaf ∈ (Owner.keys field).fields config set, leaf.AsksAs leaves)
    (path package name : String) :
    DraftStep config.compressPaths leaves asks
      (field.draft config set path package name) := by
  rw [draft]
  cases hkind : field.kind with
  | list =>
      have hmessage := h.message (by rw [hkind]; rfl)
      refine .bind (draftStep_messageReference hmessage) fun reference => ?_
      dsimp only
      split
      · rename_i hkeyed
        exact .bind (draftStep_keyWrapper (h.keys hkeyed) (hkeys hkeyed) _ _ _) fun wrapper =>
          .pure _
      · exact .pure _
  | container =>
      have hmessage := h.message (by rw [hkind]; rfl)
      exact .bind (draftStep_messageReference hmessage) fun reference => .pure _
  | leaf | leafList =>
      have hkind : field.kind.isLeaf = true := by
        rw [hkind]
        rfl
      exact .bind (.leaf (leafStep_leafField hkind hleaf)) fun type => .pure _
  | module | anydata => exact .throw rfl

end Site

/-- The draft of a directory is put together from steps that ask for its message, and for the
messages and key wrappers of its fields. -/
theorem Directory.draftStep {directory : Directory} (h : asks (.directory directory.site))
    (hfields : ∀ field ∈ directory.fields.entries, field.2.MayAsk asks)
    (hleaves : Site.AllAskAs leaves config set (directory.ownFields config.compressPaths)) :
    DraftStep config.compressPaths leaves asks (directory.draft config set) := by
  rw [draft]
  refine .bind (.message h) fun name => .bind (.package h) fun package => ?_
  rw [Site.drafts_eq]
  refine .collect (fun step hstep => ?_) fun fields => .pure _
  obtain ⟨field, hfield, rfl⟩ := List.mem_map.1 hstep
  obtain ⟨hleaf, hkeys⟩ := hleaves field hfield
  exact Site.draftStep_draft (hfields field (List.mem_filter.1 hfield).1) hleaf hkeys _ _ _

/-- The message belongs to a directory, or is the key wrapper of a keyed list among the fields of
one. -/
def DirectorySet.Needs (set : DirectorySet) : Owner → Prop
  | .directory site => ∃ directory ∈ set.directories, directory.site = site
  | .keys list => list.node.isKeyedList = true ∧
      ∃ directory ∈ set.directories, list ∈ directory.fields.values

/-- The messages and key wrappers that the fields of a directory lead to are among those that the
directories need. -/
theorem Directory.mayAsk_of_mem {tree : Tree} {directory : Directory}
    (hd : directory ∈ (tree.directories config).directories) :
    ∀ field ∈ directory.fields.entries, field.2.MayAsk (tree.directories config).Needs := by
  refine fun field hfield => ⟨fun hkind => ?_, fun hkeyed => ?_⟩
  · exact ⟨_, DirectorySet.mem_collect_of_field hd hfield hkind, rfl⟩
  · exact ⟨hkeyed, directory, hd, List.mem_map.2 ⟨field, hfield, rfl⟩⟩

/-!
## Drafting again
-/

namespace Steady

variable {α β : Type} {steps : List (Drafting α)}

theorem grows_tryAll (h : ∀ step ∈ steps, Steady leaves step) (registry : Registry) :
    registry.Grows leaves (tryAll steps registry).2 := by
  induction steps generalizing registry with
  | nil => exact .refl
  | cons step rest ih =>
      exact ((h step List.mem_cons_self).grows registry).trans
        (ih (fun other ho => h other (List.mem_cons_of_mem _ ho)) _)

/-- Steps that have all succeeded succeed again with the same values. -/
theorem tryAll_again {values : List α} (h : ∀ step ∈ steps, Steady leaves step)
    (hrun : tryAll steps registry = (values.map .ok, after)) (hkept : after.KeptBy later) :
    tryAll steps later = (values.map .ok, later) := by
  induction steps generalizing registry values with
  | nil =>
      cases values with
      | nil => rfl
      | cons value more => cases hrun
  | cons step rest ih =>
      have hrest := fun other ho => h other (List.mem_cons_of_mem step ho)
      rw [tryAll_cons] at hrun ⊢
      obtain ⟨houtcomes, hafter⟩ := Prod.mk.inj hrun
      obtain ⟨value, more, rfl, hvalue, hmore⟩ := List.map_eq_cons_iff.1 houtcomes.symm
      have hothers : tryAll rest (step registry).2 = (more.map .ok, after) :=
        Prod.ext hmore.symm hafter
      have hgrows := grows_tryAll hrest (step registry).2
      rw [hothers] at hgrows
      have hfirst : step later = (.ok value, later) :=
        (h step List.mem_cons_self).again (Prod.ext hvalue.symm rfl) (hgrows.keptBy.trans hkept)
      rw [hfirst, ih hrest hothers]
      rfl

/-- Steps that are tried one after the other, and then must all have succeeded. -/
theorem collect {next : List α → Drafting β} (h : ∀ step ∈ steps, Steady leaves step)
    (h' : ∀ values, Steady leaves (next values)) :
    Steady leaves (do
      let outcomes ← tryAll steps
      let values ← (GenerationErrors.gather outcomes : Except _ _)
      next values : Drafting β) where
  grows := fun registry => by
    change registry.Grows leaves ((liftM (GenerationErrors.gather (tryAll steps registry).1) >>=
      next : Drafting β) (tryAll steps registry).2).2
    exact (grows_tryAll h registry).trans ((bind (lift_except _) h').grows _)
  again := fun {registry after later result} hrun hkept => by
    obtain ⟨outcomes, middle, hcollect, hrest⟩ := bind_eq_ok hrun
    obtain ⟨values, ended, hvalues, hnext⟩ := bind_eq_ok hrest
    obtain ⟨hgather, rfl⟩ := lift_except_eq_ok hvalues
    have hgrow := (h' values).grows middle
    rw [hnext] at hgrow
    have hfirst := lift_state_eq_ok hcollect
    rw [GenerationErrors.gather_eq_ok_iff.1 hgather] at hfirst
    change (liftM (GenerationErrors.gather (tryAll steps later).1) >>= next : Drafting β)
      (tryAll steps later).2 = _
    rw [tryAll_again h hfirst (hgrow.keptBy.trans hkept), GenerationErrors.gather_eq_ok_iff.2 rfl]
    exact (h' values).again hnext hkept

end Steady

theorem DraftStep.steady {compress : Bool} {α : Type} {step : Drafting α}
    (h : DraftStep compress leaves asks step) : Steady leaves step := by
  induction h with
  | pure value => exact .pure value
  | throw _ => exact .throw _
  | package _ => exact Registry.steady_packageFor _ _
  | message _ => exact (Registry.steady_messageName _ _).drafting
  | keyMessage _ listMessage package =>
      exact (Registry.steady_keyMessageName _ listMessage package).drafting
  | leaf h => exact h.steady.drafting
  | bind _ _ ih ih' => exact .bind ih ih'
  | collect _ _ ih ih' => exact .collect ih ih'

/-- For steadiness it makes no difference which messages are asked for. -/
def Owner.any (_ : Owner) : Prop := True

namespace Site

theorem mayAsk_any (field : Site) : field.MayAsk Owner.any := ⟨fun _ => trivial, fun _ => trivial⟩

theorem steady_messageReference (site : Site) : Steady leaves (site.messageReference config) :=
  .bind (Registry.steady_messageName _ _) fun _ =>
    .bind (Registry.steady_packageFor _ _) fun _ => .pure _

theorem grows_keyFields {keys : List String}
    (h : ∀ key ∈ keys, ∀ leaf, list.keyLeaf? set key = some leaf → leaf.AsksAs leaves)
    (registry : Registry) :
    registry.Grows leaves (list.keyFields config set keys registry).2 := by
  rw [keyFields_eq]
  refine Steady.grows_tryAll (fun step hstep => ?_) registry
  obtain ⟨key, hkey, rfl⟩ := List.mem_map.1 hstep
  have hfield : DraftStep config.compressPaths leaves Owner.any (do
      let type ← (list.keyField config set key).drafting
      return (⟨key, type, false, [], none⟩ : FieldDraft)) := draftStep_keyField (h key hkey)
  exact hfield.steady

theorem steady_keyWrapper {package listMessage listPackage : String}
    (h : ∀ leaf ∈ (Owner.keys list).fields config set, leaf.AsksAs leaves) :
    Steady leaves (list.keyWrapper config set package listMessage listPackage) := by
  have hasks : Owner.any (.keys list) := trivial
  exact (draftStep_keyWrapper hasks h package listMessage listPackage).steady

theorem steady_draft {path package fieldName : String} (h : field.AsksAs leaves)
    (hkeys : field.node.isKeyedList = true →
      ∀ leaf ∈ (Owner.keys field).fields config set, leaf.AsksAs leaves) :
    Steady leaves (field.draft config set path package fieldName) :=
  (draftStep_draft field.mayAsk_any h hkeys path package fieldName).steady

theorem grows_drafts {path package : String} {fields : List (String × Site)}
    (h : AllAskAs leaves config set fields) (registry : Registry) :
    registry.Grows leaves (drafts config set path package fields registry).2 := by
  rw [drafts_eq]
  refine Steady.grows_tryAll (fun step hstep => ?_) registry
  obtain ⟨field, hfield, rfl⟩ := List.mem_map.1 hstep
  exact steady_draft (h field hfield).1 (h field hfield).2

end Site

theorem Directory.steady_draft {directory : Directory}
    (h : Site.AllAskAs leaves config set (directory.ownFields config.compressPaths)) :
    Steady leaves (directory.draft config set) := by
  have hasks : Owner.any (.directory directory.site) := trivial
  exact (Directory.draftStep hasks (fun field _ => field.2.mayAsk_any) h).steady

end YangToProto

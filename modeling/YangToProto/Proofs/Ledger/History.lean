import YangToProto.Generation.Run
import YangToProto.Proofs.Ledger.Assign

/-!
# Histories of a ledger

A ledger lives through assignments and runs of the generator, some of which fail. A run touches
the ledger by assignments only (`Tree.grows_generate`), one for each directory whose fields could
all be mapped. So what holds of one assignment holds of every history: tags stay legal and
distinct, none is ever changed, and every new one lies above all that its message had before
(`Ledger.tags_of_history`).
-/

namespace YangToProto

namespace Ledger

/-- A ledger becomes another one by assignments, successful or not. -/
inductive Grows (start : Ledger) : Ledger → Prop where
  | refl : Grows start start
  | assign {ledger : Ledger} (path : String) (fields : List String) (h : Grows start ledger) :
      Grows start (ledger.assign path fields).2

namespace Grows

variable {first second third : Ledger}

theorem trans (h : Grows first second) (h' : Grows second third) : Grows first third := by
  induction h' with
  | refl => exact h
  | assign path fields _ ih => exact ih.assign path fields

theorem single (ledger : Ledger) (path : String) (fields : List String) :
    Grows ledger (ledger.assign path fields).2 :=
  refl.assign path fields

theorem toExtends (h : Grows first second) : first.Extends second := by
  induction h with
  | refl => exact Extends.refl first
  | assign path fields _ ih => exact ih.trans (extends_assign _ path fields)

theorem sound (h : Grows first second) (hs : first.Sound) : second.Sound := by
  induction h with
  | refl => exact hs
  | assign path fields _ ih => exact ih.assign path fields

end Grows

end Ledger

/-!
## The ledger of a run
-/

theorem MessageDraft.grows_messages (draft : MessageDraft) (ledger : Ledger) :
    ledger.Grows (draft.messages ledger).2 := by
  have hassign := Ledger.Grows.single ledger draft.schemaPath
    (draft.scope.fields.map UntaggedField.name)
  rw [messages]
  split
  · rename_i h
    rw [h] at hassign
    exact hassign
  · rename_i h
    rw [h] at hassign
    exact hassign

theorem Directory.grows_messages (config : Config) (set : DirectorySet) (directory : Directory)
    (state : GenerationState) :
    state.ledger.Grows (directory.messages config set state).2.ledger := by
  rw [messages]
  split
  · exact Ledger.Grows.refl
  · exact MessageDraft.grows_messages _ _

theorem Site.grows_messageGroup (config : Config) (set : DirectorySet) (site : Site)
    (state : GenerationState) :
    state.ledger.Grows (site.messageGroup config set state).2.ledger := by
  rw [messageGroup]
  split
  · exact Ledger.Grows.refl
  · split
    · exact Ledger.Grows.refl
    · rename_i directory _
      have hmessages := directory.grows_messages config set state
      split
      · rename_i h
        rw [h] at hmessages
        exact hmessages
      · rename_i h
        rw [h] at hmessages
        exact hmessages

theorem DirectorySet.grows_messageGroups (config : Config) (set : DirectorySet)
    (directories : List Directory) (state : GenerationState) :
    state.ledger.Grows (messageGroups config set directories state).2.ledger := by
  induction directories generalizing state with
  | nil => exact Ledger.Grows.refl
  | cons directory rest ih =>
      exact (directory.site.grows_messageGroup config set state).trans (ih _)

/-- A run reaches the ledger through assignments only. -/
theorem Tree.grows_generate (config : Config) (sources : Sources) (tree : Tree)
    (ledger : Ledger) : ledger.Grows (tree.generate config sources ledger).2 := by
  change ledger.Grows (tree.generateRecords config ledger).2
  rw [generateRecords]
  split
  · exact Ledger.Grows.refl
  · rename_i registry _
    let set := tree.directories config
    exact set.grows_messageGroups config set.directories ⟨registry, ledger⟩

/-!
## Histories
-/

namespace Ledger

inductive Operation where
  /-- Tags are asked for, for the fields of a message. -/
  | assign (messagePath : String) (fields : List String)
  /-- The files of a tree are generated. -/
  | generate (config : Config) (sources : Sources) (tree : Tree)

def apply (ledger : Ledger) : Operation → Ledger
  | .assign messagePath fields => (ledger.assign messagePath fields).2
  | .generate config sources tree => (tree.generate config sources ledger).2

def after (ledger : Ledger) (operations : List Operation) : Ledger := operations.foldl apply ledger

theorem grows_apply (ledger : Ledger) (operation : Operation) :
    ledger.Grows (ledger.apply operation) := by
  cases operation with
  | assign messagePath fields => exact Grows.single ledger messagePath fields
  | generate config sources tree => exact tree.grows_generate config sources ledger

theorem grows_after (ledger : Ledger) (operations : List Operation) :
    ledger.Grows (ledger.after operations) := by
  induction operations generalizing ledger with
  | nil => exact Grows.refl
  | cons operation rest ih => exact (ledger.grows_apply operation).trans (ih _)

/-- Every ledger with a history is sound. -/
theorem sound_after_empty (operations : List Operation) : (empty.after operations).Sound :=
  (grows_after empty operations).sound Sound.empty

/-- In every ledger with a history, the tags of a message are distinct and legal, whatever happens
later keeps them and adds only tags above them, and a successful assignment gives one tag for each
field in order, as recorded. -/
theorem tags_of_history (earlier later : List Operation) :
    let before := empty.after earlier
    let afterwards := before.after later
    (∀ path field other tag, before.tag? path field = some tag →
      before.tag? path other = some tag → field = other) ∧
    (∀ path field tag, before.tag? path field = some tag → Tag.Legal tag) ∧
    (∀ path field tag, before.tag? path field = some tag →
      afterwards.tag? path field = some tag) ∧
    (∀ path field tag, before.tag? path field = none → afterwards.tag? path field = some tag →
      ∀ other used, before.tag? path other = some used → used < tag) ∧
    (∀ path fields tags, (before.assign path fields).1 = .ok tags →
      tags.map some = fields.map ((before.assign path fields).2.tag? path)) := by
  intro before afterwards
  have hsound : before.Sound := sound_after_empty earlier
  have hextends : before.Extends afterwards := (grows_after before later).toExtends
  simp only [tag?_eq]
  refine ⟨?_, ?_, ?_, ?_, ?_⟩
  · intro path field other tag h h'
    exact (hsound path).distinct h h'
  · intro path field tag h
    exact (hsound path).legal h
  · intro path field tag h
    exact (hextends path).kept h
  · intro path field tag hnone hsome other used hused
    exact (hextends path).above hnone hsome other used hused
  · intro path fields tags h
    simpa only [tag?_eq] using map_some_eq_of_assign before path fields h

end Ledger

end YangToProto

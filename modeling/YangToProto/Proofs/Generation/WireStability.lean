import YangToProto.Proofs.Generation.Coverage
import YangToProto.Proofs.Generation.Lockstep
import YangToProto.Proofs.Naming.Twins

/-!
# What a configuration cannot change

Apart from path compression a configuration decides how packages are called, which table of scalars
leaves use and what is written beside the definitions. None of this reaches the wire: under two
configurations that compress paths alike a run has the same errors, or the same messages with the
same names, fields, tags and embedded enums, and it leaves the same ledger
(`Tree.wire_of_compressPaths`).

Naming in advance gives both runs the same message names, whatever the packages are called
(`Registry.messages_eq_of_ready`). From there on the runs only look names up, so they stay related
(`Registry.accord_namesakes`).
-/

namespace YangToProto

/-- What of a message counts for the wire. -/
structure WireMessage where
  kind : MessageKind
  schemaPath : String
  name : String
  /-- The tag and the name of each field, and whether it is repeated. -/
  fields : List (UInt32 × String × Bool)
  enums : SortedMap String EnumTable

/-- The message without what only concerns its file and its types. -/
def Message.wire (message : Message) : WireMessage where
  kind := message.kind
  schemaPath := message.schemaPath
  name := message.name
  fields := message.fields.map Field.wire
  enums := message.enums

/-- The messages of each directory, key wrappers first, as they count for the wire. -/
def GeneratedRecords.wire (records : GeneratedRecords) : List (List WireMessage) :=
  records.groups.map fun group => group.messages.map Message.wire

theorem Message.Like.wire {message other : Message} (h : message.Like Eq other) :
    other.wire = message.wire := by
  rw [Message.wire, Message.wire, h.kind, h.schemaPath, ← h.name, h.fields, h.enums]

theorem GeneratedRecords.wire_eq {records others : GeneratedRecords}
    (h : List.Forall₂ (MessageGroup.Like Eq) records.groups others.groups) :
    others.wire = records.wire :=
  map_eq_of_forall₂ (fun _ _ hgroup => map_eq_of_forall₂ (fun _ _ hlike => hlike.wire) hgroup) h

namespace Registry

variable {compress : Bool} {set : DirectorySet} {registry other : Registry}

/-- Both registries name all that the directories need, and they give the same names to messages
and shared enums. -/
structure Namesakes (compress : Bool) (set : DirectorySet) (registry other : Registry) : Prop where
  complete : registry.Complete compress set
  complete' : other.Complete compress set
  messages : other.messages = registry.messages
  keyMessages : other.keyMessages = registry.keyMessages
  enums : registry.SameEnums other

theorem Namesakes.sharedEnumName (h : registry.Namesakes compress set other) (leaf : Site)
    (type : LeafType) :
    (sharedEnumName leaf.pathText type registry).2.Namesakes compress set
      (sharedEnumName leaf.pathText type other).2 := by
  have hnames := sameNames_sharedEnumName leaf.pathText type registry
  have hnames' := sameNames_sharedEnumName leaf.pathText type other
  have hgrows : ∀ registry : Registry,
      registry.Grows Site.anyLeaf (Registry.sharedEnumName leaf.pathText type registry).2 :=
    fun _ => .sharedEnum .refl trivial
  refine ⟨h.complete.of_sameNames hnames (hgrows registry).frozen_eq,
    h.complete'.of_sameNames hnames' (hgrows other).frozen_eq, ?_, ?_,
    (h.enums.sharedEnumName leaf.pathText type).2⟩
  · rw [hnames.messages, hnames'.messages, h.messages]
  · rw [hnames.keyMessages, hnames'.keyMessages, h.keyMessages]

/-- Namesakes answer alike whatever the directories need, from memory. -/
theorem accord_namesakes (compress : Bool) (set : DirectorySet) :
    Accord compress set.Needs (Namesakes compress set) Eq where
  package := by
    rintro _ ⟨directory, hd, rfl⟩ registry other h
    obtain ⟨package, hfound⟩ := h.complete.packages directory hd
    obtain ⟨package', hfound'⟩ := h.complete'.packages directory hd
    rw [packageFor_of_find? hfound, packageFor_of_find? hfound']
    exact h
  message := by
    rintro _ ⟨directory, hd, rfl⟩
    refine ⟨fun {registry other} h => ?_⟩
    obtain ⟨name, hname⟩ := (h.complete.serves h.complete.frozen).1 directory hd
    rw [messageName_of_find? hname, messageName_of_find? (h.messages ▸ hname)]
    exact ⟨.ok rfl, h⟩
  keyMessage := by
    rintro list ⟨hkeyed, directory, hd, hlist⟩ listMessage listMessage' _ package package'
    refine ⟨fun {registry other} h => ?_⟩
    obtain ⟨name, hname⟩ :=
      (h.complete.serves h.complete.frozen).2 directory hd list hlist hkeyed
    rw [keyMessageName_of_find? hname, keyMessageName_of_find? (h.keyMessages ▸ hname)]
    exact ⟨.ok rfl, h⟩
  shared := fun leaf type {_ _} h => h.sharedEnumName leaf type

/-- Naming in advance under two configurations that compress paths alike leads to namesakes. -/
theorem exists_namesakes {config config' : Config}
    (hcompress : config'.compressPaths = config.compressPaths) (set : DirectorySet) :
    ∃ registry other, ready config set = .ok registry ∧ ready config' set = .ok other ∧
      registry.Namesakes config.compressPaths set other := by
  obtain ⟨registry, hready, hcomplete⟩ := exists_complete config set
  obtain ⟨other, hready', hcomplete'⟩ := exists_complete config' set
  obtain ⟨_, hsame, _, henums⟩ := exists_ready config set
  obtain rfl := Except.ok.inj (hready.symm.trans hsame)
  obtain ⟨_, hsame', _, henums'⟩ := exists_ready config' set
  obtain rfl := Except.ok.inj (hready'.symm.trans hsame')
  obtain ⟨hmessages, hkeys⟩ := messages_eq_of_ready hcompress hready hready'
  have hcold : (cold config).SameEnums (cold config') := ⟨rfl, rfl, rfl⟩
  exact ⟨registry, other, hready, hready', hcomplete, hcompress ▸ hcomplete', hmessages, hkeys,
    (henums.symm.trans hcold).trans henums'⟩

end Registry

/-- Configurations that compress paths alike generate the same for the wire: the same errors in the
same order, or messages and shared enums that agree. They leave the same ledger. -/
theorem Tree.wire_of_compressPaths {config config' : Config}
    (hcompress : config'.compressPaths = config.compressPaths) (sources sources' : Sources)
    (tree : Tree) (ledger : Ledger) :
    (tree.generate config' sources' ledger).2 = (tree.generate config sources ledger).2 ∧
    ((∃ errors, (tree.generate config sources ledger).1 = .error errors ∧
        (tree.generate config' sources' ledger).1 = .error errors) ∨
      ∃ records others,
        (tree.generateRecords config ledger).1 = .ok records ∧
        (tree.generateRecords config' ledger).1 = .ok others ∧
        (tree.generate config sources ledger).1 = .ok (records.output config sources) ∧
        (tree.generate config' sources' ledger).1 = .ok (others.output config' sources') ∧
        others.wire = records.wire ∧ others.enums = records.enums) := by
  obtain ⟨registry, other, hready, hready', hnamesakes⟩ :=
    Registry.exists_namesakes hcompress (tree.directories config)
  have hset : tree.directories config' = tree.directories config := by
    rw [directories, directories, hcompress]
  have hrelated : GenerationState.Related
      (Registry.Namesakes config.compressPaths (tree.directories config))
      ⟨registry, ledger⟩ ⟨other, ledger⟩ := ⟨hnamesakes, rfl⟩
  obtain ⟨halike, hafter⟩ := DirectorySet.lockstep_of_accord hcompress
    (Registry.accord_namesakes config.compressPaths (tree.directories config))
    (fun hsame => hsame.enums.definitions) hrelated
  rw [generate, generate, generateRecords, generateRecords, hset, hready, hready']
  refine ⟨hafter.ledger.symm, ?_⟩
  dsimp only
  generalize ((tree.directories config).records config ⟨registry, ledger⟩).1 = one at halike ⊢
  generalize ((tree.directories config).records config' ⟨other, ledger⟩).1 = two at halike ⊢
  cases halike with
  | error errors => exact Or.inl ⟨errors, rfl, rfl⟩
  | @ok records others hlike =>
      exact Or.inr ⟨records, others, rfl, rfl, rfl, rfl, GeneratedRecords.wire_eq hlike.1, hlike.2⟩

theorem Tree.wire_of_compressPaths_wrapperTypes :
    let list := Node.list "entry" ["id"] [Node.leaf "id" .string]
    let declared := Node.module "m" [Node.container "a" [list]]
    let tree := Tree.copyOf declared
    let config : Config := {}
    let config' : Config := { basePackage := "acme", wrapperTypes := true }
    config'.compressPaths = config.compressPaths ∧
      (tree.generate config' {} ∅).1.toOption ≠ (tree.generate config {} ∅).1.toOption ∧
      (tree.generate config' {} ∅).2 = (tree.generate config {} ∅).2 ∧
      ∃ records others, (tree.generateRecords config ∅).1 = .ok records ∧
        (tree.generateRecords config' ∅).1 = .ok others ∧ others.wire = records.wire ∧
        others.enums = records.enums := by
  intro list declared tree config config'
  have hsome : (tree.generate config {} ∅).1.toOption.isSome = true := by decide +kernel
  have hne : (tree.generate config' {} ∅).1.toOption ≠ (tree.generate config {} ∅).1.toOption := by
    decide +kernel
  have hcompress : config'.compressPaths = config.compressPaths := rfl
  obtain ⟨hledger, ⟨errors, herror, _⟩ |
      ⟨records, others, hrecords, hothers, _, _, hwire, henums⟩⟩ :=
    Tree.wire_of_compressPaths hcompress {} {} tree ∅
  · rw [herror] at hsome
    cases hsome
  · exact ⟨hcompress, hne, hledger, records, others, hrecords, hothers, hwire, henums⟩

end YangToProto

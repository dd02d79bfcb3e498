import YangToProto.Yaml.Scan

/-!
# YAML documents

The tokens of a text are read as one node. An anchor names a node, and an alias stands for the
node that its anchor named last; within that node itself it cannot be read.
-/

namespace YangToProto

/-- Tokens that are read, and what the names in front of them stand for. -/
structure YamlReading where
  rest : List YamlToken
  /-- What the handles of tags stand for. -/
  handles : List (String × String) := []
  /-- The numbers of the anchors by name, the last one first. -/
  anchors : List (String × Nat) := []
  /-- The nodes that anchors name, by the numbers of the anchors. -/
  nodes : List (Nat × Yaml) := []

/-- A reader takes the tokens of what it reads. -/
abbrev YamlReader := StateT YamlReading (Except YamlFault)

namespace YamlReader

/-! ## Tokens and names -/

def peek : YamlReader (Option YamlToken) := return (← get).rest.head?

def advance : YamlReader Unit := modify fun s => { s with rest := s.rest.tail }

def isAt (tokens : List YamlToken) : YamlReader Bool :=
  return ((← peek).map tokens.contains).getD false

def accept (token : YamlToken) : YamlReader Bool := do
  let found ← isAt [token]
  if found then advance
  return found

def anchor? : YamlReader (Option Nat) := do
  match ← peek with
  | some (.anchor name) =>
    advance
    let s ← get
    let number := s.anchors.length
    set { s with anchors := (name, number) :: s.anchors }
    return some number
  | _ => return none

/-- A tag with what its handle stands for. -/
def resolve (handle name : String) : YamlReader (String × String) := do
  match (← get).handles.lookup handle with
  | some start => return (start, name)
  | none =>
    if handle == "!!" then return (Yaml.coreTag, name)
    else if YamlScan.isWhole handle.toList then throw .badTag
    else return (handle, name)

def tag? : YamlReader (Option (String × String)) := do
  match ← peek with
  | some (.tag handle name) =>
    advance
    return some (← resolve handle name)
  | _ => return none

/-- Takes an anchor and a tag in any order. There may be none. -/
def properties : YamlReader (Option Nat × Option (String × String)) := do
  match ← anchor? with
  | some number => return (some number, ← tag?)
  | none =>
    match ← tag? with
    | some tag => return (← anchor?, some tag)
    | none => return (none, none)

def named (name : String) : YamlReader Yaml := do
  let s ← get
  match s.anchors.lookup name with
  | none => throw (.unknownAnchor name)
  | some number => return (s.nodes.lookup number).getD .unreadable

def name (number : Option Nat) (node : Yaml) : YamlReader Yaml := do
  match number with
  | none => return node
  | some number =>
    modify fun s => { s with nodes := (number, node) :: s.nodes }
    return node

/-! ## Collections -/

def nodeUnless (tokens : List YamlToken) (node : YamlReader Yaml) : YamlReader Yaml := do
  if ← isAt tokens then return .nothing else node

/-- Takes the items of a list in a block. A list without indentation ends where no dash is. -/
def blockItems (indented : Bool) (node : YamlReader Yaml) : Nat → YamlReader (List Yaml)
  | 0 => throw .unfinished
  | rounds + 1 => do
    if ← accept .dash then
      let others := if indented then [] else [YamlToken.key, .value]
      let item ← nodeUnless (.dash :: .blockEnd :: others) node
      return item :: (← blockItems indented node rounds)
    else if !indented then return []
    else if ← accept .blockEnd then return []
    else throw .unexpected

def blockEntries (node : YamlReader Yaml) : Nat → YamlReader (List (Yaml × Yaml))
  | 0 => throw .unfinished
  | rounds + 1 => do
    let node := nodeUnless [.key, .value, .blockEnd] node
    if ← accept .blockEnd then return []
    let key ← if ← accept .key then node else if ← isAt [.value] then pure .nothing
      else throw .unexpected
    let value ← if ← accept .value then node else pure .nothing
    return (key, value) :: (← blockEntries node rounds)

def separator (isFirst : Bool) : YamlReader Unit := do
  if !isFirst then
    if !(← accept .comma) then throw .unexpected

/-- Takes the key and the value of an entry in brackets, which end with the given token. -/
def flowEntry (close : YamlToken) (node : YamlReader Yaml) : YamlReader (Yaml × Yaml) := do
  let key ← if ← accept .key then nodeUnless [.value, .comma, close] node
    else nodeUnless [.value] node
  let value ← if ← accept .value then nodeUnless [.comma, close] node else pure .nothing
  return (key, value)

/-- The map of some keys with the nodes behind them. No two keys can be the same. -/
def mapOf (pairs : List (Yaml × Yaml)) : YamlReader Yaml :=
  let entries := Yaml.entriesOf (pairs.flatMap fun (key, value) => [key, value])
  if Yaml.hasTwice entries then throw .duplicateKey else return .map entries

/-- Takes the items of a list in brackets. A key with its value is a map of its own. -/
def flowItems (node : YamlReader Yaml) (isFirst : Bool) : Nat → YamlReader (List Yaml)
  | 0 => throw .unfinished
  | rounds + 1 => do
    if ← accept .listClose then return []
    separator isFirst
    if ← accept .listClose then return []
    let item ← if ← isAt [.key] then mapOf [← flowEntry .listClose node] else node
    return item :: (← flowItems node false rounds)

def flowEntries (node : YamlReader Yaml) (isFirst : Bool) :
    Nat → YamlReader (List (Yaml × Yaml))
  | 0 => throw .unfinished
  | rounds + 1 => do
    if ← accept .mapClose then return []
    separator isFirst
    if ← accept .mapClose then return []
    let entry ← flowEntry .mapClose node
    return entry :: (← flowEntries node false rounds)

/-! ## Nodes -/

/-- Takes a node. Tokens tell where it stands: in a block, where a list may have no indentation
behind a key, or in brackets. Each collection around it takes a round. -/
def node (inBlock afterKey : Bool) : Nat → YamlReader Yaml
  | 0 => throw .tooDeep
  | rounds + 1 => do
    let count := (← get).rest.length + 1
    match ← peek with
    | some (.alias found) =>
      advance
      named found
    | _ =>
      let (number, tag) ← properties
      let empty := .ofScalar true tag ""
      let found ← match ← peek with
        | some (.scalar plain text) =>
          advance
          pure (Yaml.ofScalar plain tag text)
        | some .listOpen =>
          advance
          Yaml.list <$> flowItems (node false false rounds) true count
        | some .mapOpen =>
          advance
          mapOf (← flowEntries (node false false rounds) true count)
        | some .dash =>
          if afterKey then Yaml.list <$> blockItems false (node true false rounds) count
          else if number.isSome || tag.isSome then pure empty
          else throw .unexpected
        | some .blockList =>
          if inBlock then
            advance
            Yaml.list <$> blockItems true (node true false rounds) count
          else throw .unexpected
        | some .blockMap =>
          if inBlock then
            advance
            mapOf (← blockEntries (node true true rounds) count)
          else throw .unexpected
        | _ => if number.isSome || tag.isSome then pure empty else throw .unexpected
      name number found

/-- Takes the directives in front of a document. Only the last one counts. -/
def directives (hasVersion : Bool) : List YamlToken → YamlReader Unit
  | .version :: rest => do
    if hasVersion then throw .badDirective
    modify fun s => { s with rest := rest, handles := [] }
    directives true rest
  | .tagDirective handle start :: rest => do
    modify fun s => { s with rest := rest, handles := [(handle, start)] }
    directives hasVersion rest
  | _ => return

def isDocumentMark : YamlToken → Bool
  | .version => true
  | .tagDirective _ _ => true
  | .documentStart => true
  | .documentEnd => true
  | _ => false

/-- Takes the only document of a text. A text may have none. -/
def document : YamlReader (Option Yaml) := do
  let rest := (← get).rest.dropWhile (· == .documentEnd)
  modify fun s => { s with rest := rest }
  if rest.isEmpty then return none
  directives false rest
  let explicit ← accept .documentStart
  if !explicit && (rest.head?.map isDocumentMark).getD false then throw .badDirective
  let rest := (← get).rest
  let isEmpty := explicit && (rest.head?.map isDocumentMark).getD true
  let found ← if isEmpty then pure .nothing else node true false (rest.length + 1)
  if (← get).rest.all (· == .documentEnd) then return some found else throw .manyDocuments

end YamlReader

def Yaml.read (text : String) : Except YamlFault (Option Yaml) := do
  let tokens ← YamlScan.tokens text
  return (← YamlReader.document { rest := tokens }).1

end YangToProto

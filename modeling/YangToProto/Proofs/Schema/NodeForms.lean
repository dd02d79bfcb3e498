import YangToProto.Proofs.Schema.TypeForms

/-!
# Nodes are read back

A node is read back from its text in every layout (`Node.takes_scan`), and so from what is written
for it (`Node.read_written`), if the arrays and objects of its JSON form nest no deeper than is
read. The children of a node stand in an array of its object, so each generation nests two levels
deeper.
-/

namespace YangToProto

open Json (Layout)
open Scan

variable {layout : Layout} {rounds depth level : Nat}

namespace NodeKind

theorem ofLabel?_label (kind : NodeKind) : ofLabel? kind.label = some kind := by
  cases kind <;> rfl

theorem takes_scan (layout : Layout) (level depth : Nat) (kind : NodeKind) :
    Takes (scan depth) (layout.text level (.string kind.label)) kind := by
  intro blanks rest hblanks hrest
  have hlabel :=
    (takes_expectString layout level "variant identifier" kind.label).apply hrest
  have htext := text_string layout level kind.label rest
  rw [htext] at hlabel ⊢
  rw [scan, bind_of_ok (peek_blanks hblanks rfl)]
  change scanName _ = _
  rw [scanName, bind_of_ok hlabel, ofLabel?_label]
  rfl

end NodeKind

namespace Node

/-! ## Forms -/

def keyEntries (key : List String) : List (String × Json) :=
  if key.isEmpty then [] else [("key", .array (key.map .string))]

def typeEntries : Option LeafType → List (String × Json)
  | some type => [("type", type.toJson)]
  | none => []

def childEntries (children : List Node) : List (String × Json) :=
  if children.isEmpty then [] else [("children", .array (children.map toJson))]

def entries (node : Node) : List (String × Json) :=
  ("name", .string node.name) :: ("kind", .string node.kind.label) ::
    (keyEntries node.key ++ (typeEntries node.type ++ childEntries node.children))

theorem allToJson_eq (nodes : List Node) : allToJson nodes = nodes.map toJson := by
  induction nodes with
  | nil => rfl
  | cons node rest ih => rw [allToJson, ih, List.map_cons]

theorem toJson_eq (node : Node) : node.toJson = .object node.entries := by
  obtain ⟨name, kind, key, type, children⟩ := node
  rw [entries, childEntries, ← allToJson_eq]
  cases key <;> cases type <;> cases children <;> rfl

/-- What is known of a node once its object is read. -/
def written (node : Node) : Partial where
  name := some node.name
  kind := some node.kind
  key := if node.key.isEmpty then none else some node.key
  type := node.type.map some
  children := if node.children.isEmpty then none else some node.children

theorem finish_written (node : Node) : node.written.finish = .ok node := by
  obtain ⟨name, kind, key, type, children⟩ := node
  cases key <;> cases type <;> cases children <;> rfl

/-! ## Texts -/

variable {child : Scan Node}

theorem takes_name (name : String) :
    Takes (Partial.scan rounds depth child "name" {}) (layout.member level ("name", .string name)).2
      { name := some name } := by
  have hname := takes_once (takes_expectString layout level "a string" name) "name"
  exact hname.map fun name => ({ name := name } : Partial)

theorem takes_kind (name : Option String) (kind : NodeKind) :
    Takes (Partial.scan rounds depth child "kind" { name })
      (layout.member level ("kind", .string kind.label)).2 { name, kind := some kind } := by
  have hkind := takes_once (kind.takes_scan layout level depth) "kind"
  exact hkind.map fun kind => ({ name, kind } : Partial)

theorem gathers_key (name : Option String) (kind : Option NodeKind) {key : List String}
    (hdepth : ∀ entry ∈ keyEntries key, entry.2.depth ≤ depth)
    (hrounds : ∀ entry ∈ keyEntries key, (layout.text level entry.2).length ≤ rounds) :
    Gathers (Partial.scan rounds depth child) { name, kind }
      ((keyEntries key).map (layout.member level))
      { name, kind, key := if key.isEmpty then none else some key } := by
  cases key with
  | nil => exact .nil
  | cons first rest =>
      have hentry : ("key", Json.array ((first :: rest).map .string)) ∈
          keyEntries (first :: rest) := List.mem_singleton_self _
      obtain ⟨depth, rfl⟩ :=
        Nat.exists_eq_succ_of_ne_zero (Nat.ne_zero_of_lt (hdepth _ hentry))
      have hnames : Takes (scanNames rounds (depth + 1))
          (layout.text level (.array ((first :: rest).map .string))) (first :: rest) :=
        takes_expectList Json.string
          (fun text _ =>
            ⟨starts_text (.string text) _, takes_expectString layout _ "a string" text⟩)
          (hrounds _ hentry)
      have hkey := (takes_once hnames "key").map fun key => ({ name, kind, key } : Partial)
      exact .cons hkey .nil

theorem gathers_type (name : Option String) (kind : Option NodeKind) (key : Option (List String))
    {type : Option LeafType} (hdepth : ∀ entry ∈ typeEntries type, entry.2.depth ≤ depth)
    (hrounds : ∀ entry ∈ typeEntries type, (layout.text level entry.2).length ≤ rounds) :
    Gathers (Partial.scan rounds depth child) { name, kind, key }
      ((typeEntries type).map (layout.member level))
      { name, kind, key, type := type.map some } := by
  cases type with
  | none => exact .nil
  | some type =>
      have hentry : ("type", type.toJson) ∈ typeEntries (some type) := List.mem_singleton_self _
      have hread := type.takes_scan (hdepth _ hentry) (hrounds _ hentry)
      have hstart := exists_start_object layout level type.entries
      rw [← type.toJson_eq] at hstart
      have htype := (takes_once (takes_expectOption hread hstart) "type").map
        fun type => ({ name, kind, key, type } : Partial)
      exact .cons htype .nil

theorem starts_toJson (node : Node) : Starts (layout.text level node.toJson) := by
  rw [toJson_eq]
  exact ⟨'\x7b', _, rfl, rfl, by decide⟩

theorem gathers_children (name : Option String) (kind : Option NodeKind)
    (key : Option (List String)) (type : Option (Option LeafType)) {nodes : List Node}
    (hdepth : ∀ entry ∈ childEntries nodes, entry.2.depth ≤ depth)
    (hrounds : ∀ entry ∈ childEntries nodes, (layout.text level entry.2).length ≤ rounds)
    (hchild : ∀ node ∈ nodes, Takes child (layout.text (level + 1) node.toJson) node) :
    Gathers (Partial.scan rounds depth child) { name, kind, key, type }
      ((childEntries nodes).map (layout.member level))
      { name, kind, key, type, children := if nodes.isEmpty then none else some nodes } := by
  cases nodes with
  | nil => exact .nil
  | cons first rest =>
      have hentry : ("children", Json.array ((first :: rest).map toJson)) ∈
          childEntries (first :: rest) := List.mem_singleton_self _
      obtain ⟨depth, rfl⟩ :=
        Nat.exists_eq_succ_of_ne_zero (Nat.ne_zero_of_lt (hdepth _ hentry))
      have hnodes : Takes (expectList rounds (depth + 1) fun _ => child)
          (layout.text level (.array ((first :: rest).map toJson))) (first :: rest) :=
        takes_expectList toJson (fun node hnode => ⟨node.starts_toJson, hchild node hnode⟩)
          (hrounds _ hentry)
      have hchildren := (takes_once hnodes "children").map
        fun children => ({ name, kind, key, type, children } : Partial)
      exact .cons hchildren .nil

theorem gathers_entries (node : Node) (hdepth : ∀ entry ∈ node.entries, entry.2.depth ≤ depth)
    (hrounds : ∀ entry ∈ node.entries, (layout.text level entry.2).length ≤ rounds)
    (hchild : ∀ inner ∈ node.children, Takes child (layout.text (level + 1) inner.toJson) inner) :
    Gathers (Partial.scan rounds depth child) {} (node.entries.map (layout.member level))
      node.written := by
  simp only [entries, List.forall_mem_cons, List.forall_mem_append] at hdepth hrounds
  obtain ⟨-, -, hkeyDepth, htypeDepth, hchildDepth⟩ := hdepth
  obtain ⟨-, -, hkeyRounds, htypeRounds, hchildRounds⟩ := hrounds
  rw [entries, List.map_cons, List.map_cons, List.map_append, List.map_append]
  refine .cons (takes_name node.name) (.cons (takes_kind _ node.kind) ?_)
  refine (gathers_key _ _ hkeyDepth hkeyRounds).append ?_
  refine (gathers_type _ _ _ htypeDepth htypeRounds).append ?_
  exact gathers_children _ _ _ _ hchildDepth hchildRounds hchild

/-- Takes a child of a node whose members may nest to the given depth. -/
def scanChild (rounds : Nat) : Nat → Scan Node
  | 0 => Scan.malformed .tooDeep
  | depth + 1 => scan rounds depth

/-- A node is an array of its fields or an object. -/
theorem scan_succ (rounds depth : Nat) :
    scan rounds (depth + 1) = (do
      match ← Scan.peek with
      | some '[' =>
        Scan.advance
        scanFields rounds depth (scanChild rounds depth)
      | some '\x7b' =>
        Scan.advance
        let known ← Scan.members (Partial.scan rounds depth (scanChild rounds depth)) true {} rounds
        match known.finish with
        | .ok node => return node
        | .error fault => throw fault
      | _ => Scan.wrongType "struct NodeDef") := by
  cases depth <;> rfl

theorem depth_ne_zero {node : Node} (h : node.toJson.depth ≤ depth) : depth ≠ 0 := by
  rw [toJson_eq] at h
  exact Nat.ne_zero_of_lt h

theorem children_mem_entries {node inner : Node} (h : inner ∈ node.children) :
    ("children", Json.array (node.children.map toJson)) ∈ node.entries := by
  have hsome : ¬ node.children.isEmpty = true := by simpa using List.ne_nil_of_mem h
  rw [entries, childEntries, if_neg hsome]
  simp

theorem depth_of_mem_children {node inner : Node} (h : inner ∈ node.children) :
    inner.toJson.depth + 2 ≤ node.toJson.depth := by
  have harray := Json.depth_lt_of_mem_items (List.mem_map_of_mem (f := toJson) h)
  have hobject := Json.depth_lt_of_mem_members (children_mem_entries h)
  rw [← toJson_eq] at hobject
  dsimp only at hobject
  omega

theorem length_of_mem_children (layout : Layout) {node inner : Node} (h : inner ∈ node.children)
    (level : Nat) :
    (layout.text (level + 2) inner.toJson).length < (layout.text level node.toJson).length := by
  have harray := layout.length_item_lt (List.mem_map_of_mem (f := toJson) h) (level + 1)
  have hobject := layout.length_member_lt (children_mem_entries h) level
  rw [← toJson_eq] at hobject
  exact Nat.lt_trans harray hobject

/-- A node is read back from its text. -/
theorem takes_scan (node : Node) (hdepth : node.toJson.depth ≤ depth)
    (hrounds : (layout.text level node.toJson).length ≤ rounds) :
    Takes (scan rounds depth) (layout.text level node.toJson) node := by
  induction depth using Nat.strongRecOn generalizing node level with
  | ind depth ih =>
      obtain ⟨depth, rfl⟩ := Nat.exists_eq_succ_of_ne_zero (depth_ne_zero hdepth)
      have hchild : ∀ inner ∈ node.children,
          Takes (scanChild rounds depth) (layout.text (level + 2) inner.toJson) inner := by
        intro inner hinner
        have hinside := depth_of_mem_children hinner
        have hlength := length_of_mem_children layout hinner level
        -- the object and the array around the child have taken two levels
        obtain ⟨inside, rfl⟩ := Nat.exists_eq_succ_of_ne_zero (by omega : depth ≠ 0)
        exact ih inside (by omega) inner (by omega) (by omega)
      rw [toJson_eq] at hdepth hrounds ⊢
      have hdepths : ∀ entry ∈ node.entries, entry.2.depth ≤ depth := fun entry hentry =>
        Nat.le_of_lt_succ (Nat.lt_of_lt_of_le (Json.depth_lt_of_mem_members hentry) hdepth)
      have hlengths : ∀ entry ∈ node.entries,
          (layout.text (level + 1) entry.2).length ≤ rounds := fun entry hentry =>
        Nat.le_of_lt (Nat.lt_of_lt_of_le (layout.length_member_lt hentry level) hrounds)
      have hcount : (node.entries.map (layout.member (level + 1))).length < rounds := by
        rw [List.length_map]
        exact Nat.lt_of_lt_of_le (layout.length_members_lt level node.entries) hrounds
      intro blanks rest hblanks hrest
      have hmembers := members_items (layout.blank_line (level + 1)) (layout.blank_line level)
        (gathers_entries node hdepths hlengths hchild) hcount rest
      rw [scan_succ, layout.text_object, List.cons_append, bind_of_ok (peek_blanks hblanks rfl)]
      change (advance >>= fun _ => Scan.members
        (Partial.scan rounds depth (scanChild rounds depth)) true {} rounds >>= _) _ = _
      rw [bind_of_ok (advance_cons _ _), bind_of_ok hmembers, finish_written]
      rfl

/-- A node is read back from the text of its JSON form in every layout. -/
theorem read_text (layout : Layout) (node : Node) (h : node.toJson.depth ≤ Scan.maximumDepth) :
    read (String.ofList (layout.text 0 node.toJson)) = .ok node := by
  have htakes : Takes (scan (layout.text 0 node.toJson).length Scan.maximumDepth)
      (layout.text 0 node.toJson) node := takes_scan node h (Nat.le_refl _)
  have hends : Ends [] := by simp [Ends]
  have hread := htakes.apply hends
  rw [List.append_nil] at hread
  rw [read, run, String.toList_ofList]
  simp only [hread]
  rfl

/-- A node whose JSON form nests no deeper than is read comes back from what is written for it, with
blanks or without, and its text makes the tree that the node makes. -/
theorem read_written (node : Node) (h : node.toJson.depth ≤ Scan.maximumDepth) :
    read node.write = .ok node ∧ read (node.toJson.pretty 0) = .ok node ∧
      Tree.read node.write = (Tree.ofNode node).mapError .schema := by
  have hcompact := read_text .compact node h
  have hindented := read_text .indented node h
  rw [Layout.text_compact, String.ofList_toList] at hcompact
  rw [Layout.text_indented, String.ofList_toList] at hindented
  refine ⟨hcompact, hindented, ?_⟩
  rw [Tree.read, write, hcompact]

/-- A list with two keys, a union in a union with the least and the largest ordinal, identity bases
of a module and of none, and a default that needs escapes. -/
theorem read_written_nested :
    let bounds : LeafType :=
      .enumeration [⟨"LEAST", Int64.minValue⟩, ⟨"LARGEST", Int64.maxValue⟩]
    let base : LeafType := ⟨"identityref", .identityref ⟨"crypto", some "sec", ["aes", ""]⟩, none⟩
    let type := (LeafType.union [.string, .union [bounds, base], .identityref "any" []]).withDefault
      "\"\\\n\x00"
    let node : Node := .module "m" [.list "item" ["name", "id"]
      [.leaf "name" .string, .leafList "id" type, .anydata ""]]
    node.toJson.depth = 12 ∧ read node.write = .ok node ∧ read (node.toJson.pretty 0) = .ok node ∧
      Tree.read node.write = (Tree.ofNode node).mapError .schema := by
  intro bounds base type node
  have hdepth : node.toJson.depth = 12 := by decide
  exact ⟨hdepth, read_written node (by rw [hdepth]; decide)⟩

end Node

end YangToProto

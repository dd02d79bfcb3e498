import YangToProto.Proofs.Json.Reading

/-!
# Layouts of JSON texts

A layout says which blanks stand in front of the items of arrays and objects, in front of closing
brackets and behind colons (`Json.Layout`). Printing without blanks is one layout
(`Layout.text_compact`), printing each item on a line of its own another (`Layout.text_indented`),
so what is read back in every layout is read back from both.
-/

namespace YangToProto.Json

/-- Induction over values, with a hypothesis for each item of an array and each member of an
object. -/
@[elab_as_elim, induction_eliminator]
theorem induction {motive : Json → Prop} (null : motive null) (bool : ∀ value, motive (bool value))
    (number : ∀ value, motive (number value)) (string : ∀ text, motive (string text))
    (array : ∀ items, (∀ item ∈ items, motive item) → motive (array items))
    (object : ∀ members, (∀ member ∈ members, motive member.2) → motive (object members))
    (value : Json) : motive value :=
  @Json.rec motive (fun items => ∀ item ∈ items, motive item)
    (fun members => ∀ member ∈ members, motive member.2) (fun member => motive member.2)
    null bool number string array object
    (fun _ h => absurd h List.not_mem_nil)
    (fun _ _ hitem hrest => List.forall_mem_cons.2 ⟨hitem, hrest⟩)
    (fun _ h => absurd h List.not_mem_nil)
    (fun _ _ hmember hrest => List.forall_mem_cons.2 ⟨hmember, hrest⟩)
    (fun _ _ hvalue => hvalue) value

/-! ## Depth -/

mutual

/-- How deep arrays and objects nest in a value. -/
def depth : Json → Nat
  | null => 0
  | bool _ => 0
  | number _ => 0
  | string _ => 0
  | array items => itemsDepth items + 1
  | object members => membersDepth members + 1

def itemsDepth : List Json → Nat
  | [] => 0
  | item :: rest => max (depth item) (itemsDepth rest)

def membersDepth : List (String × Json) → Nat
  | [] => 0
  | (_, value) :: rest => max (depth value) (membersDepth rest)

end

theorem depth_lt_of_mem_items {items : List Json} {item : Json} (h : item ∈ items) :
    item.depth < (array items).depth := by
  rw [depth, Nat.lt_succ_iff]
  induction items with
  | nil => exact absurd h List.not_mem_nil
  | cons first rest ih =>
      rw [itemsDepth]
      rcases List.mem_cons.1 h with rfl | hrest
      · exact Nat.le_max_left _ _
      · exact Nat.le_trans (ih hrest) (Nat.le_max_right _ _)

theorem depth_lt_of_mem_members {members : List (String × Json)} {member : String × Json}
    (h : member ∈ members) : member.2.depth < (object members).depth := by
  rw [depth, Nat.lt_succ_iff]
  induction members with
  | nil => exact absurd h List.not_mem_nil
  | cons first rest ih =>
      obtain ⟨name, value⟩ := first
      rw [membersDepth]
      rcases List.mem_cons.1 h with rfl | hrest
      · exact Nat.le_max_left _ _
      · exact Nat.le_trans (ih hrest) (Nat.le_max_right _ _)

/-! ## Texts -/

theorem blank_newLine (level : Nat) : Scan.Blank (newLine level).toList := by
  rw [newLine, String.toList_append, String.toList_join]
  refine Scan.Blank.append (fun c hc => ?_) fun c hc => ?_
  · cases List.mem_singleton.1 hc
    rfl
  · obtain ⟨piece, hpiece, hc⟩ := List.mem_flatMap.1 hc
    rw [List.eq_of_mem_replicate hpiece] at hc
    have hblanks : ∀ c ∈ "  ".toList, Scan.isSpace c = true := List.all_eq_true.1 (by decide)
    exact hblanks c hc

/-- Where blanks stand in the text of a value. -/
structure Layout where
  /-- What stands in front of an item at some level, and in front of the bracket that closes the
  items one level further in. -/
  line : Nat → List Char
  /-- What stands behind a colon. -/
  space : List Char
  blank_line : ∀ level, Scan.Blank (line level)
  blank_space : Scan.Blank space

namespace Layout

/-- No blanks. -/
def compact : Layout := ⟨fun _ => [], [], fun _ => Scan.blank_nil, Scan.blank_nil⟩

/-- Each item on a line of its own. -/
def indented : Layout :=
  ⟨fun level => (newLine level).toList, [' '], blank_newLine,
    by simp [Scan.Blank, Scan.isSpace]⟩

@[simp] theorem compact_space : compact.space = [] := rfl

@[simp] theorem indented_space : indented.space = [' '] := rfl

variable (layout : Layout)

mutual

def text (level : Nat) : Json → List Char
  | null => "null".toList
  | bool value => if value then "true".toList else "false".toList
  | number value => (printNumber value).toList
  | string text => (printString text).toList
  | array items =>
    '[' :: Scan.itemsText (layout.line (level + 1)) (layout.line level) ']'
      (itemTexts (level + 1) items)
  | object members =>
    '\x7b' :: Scan.itemsText (layout.line (level + 1)) (layout.line level) '\x7d'
      (memberTexts (level + 1) members)

def itemTexts (level : Nat) : List Json → List (List Char)
  | [] => []
  | item :: rest => text level item :: itemTexts level rest

def memberTexts (level : Nat) : List (String × Json) → List (List Char)
  | [] => []
  | (name, value) :: rest =>
    Scan.memberText (name, ':' :: (layout.space ++ text level value)) :: memberTexts level rest

end

def member (level : Nat) (member : String × Json) : String × List Char :=
  (member.1, ':' :: (layout.space ++ layout.text level member.2))

theorem itemTexts_eq (level : Nat) (items : List Json) :
    layout.itemTexts level items = items.map (layout.text level) := by
  induction items with
  | nil => rfl
  | cons item rest ih => rw [itemTexts, ih, List.map_cons]

theorem memberTexts_eq (level : Nat) (members : List (String × Json)) :
    layout.memberTexts level members = (members.map (layout.member level)).map Scan.memberText := by
  induction members with
  | nil => rfl
  | cons member rest ih =>
      rw [memberTexts, ih]
      rfl

theorem text_array (level : Nat) (items : List Json) :
    layout.text level (array items) =
      '[' :: Scan.itemsText (layout.line (level + 1)) (layout.line level) ']'
        (items.map (layout.text (level + 1))) := by rw [text, itemTexts_eq]

theorem text_object (level : Nat) (members : List (String × Json)) :
    layout.text level (object members) =
      '\x7b' :: Scan.itemsText (layout.line (level + 1)) (layout.line level) '\x7d'
        ((members.map (layout.member (level + 1))).map Scan.memberText) := by
  rw [text, memberTexts_eq]

/-! ## Printing -/

theorem intercalate_append (gap last : List Char) (closing : Char) (item : List Char)
    (items : List (List Char)) :
    (',' :: gap).intercalate (item :: items) ++ (last ++ [closing]) =
      item ++ Scan.moreItems gap last closing items := by
  induction items generalizing item with
  | nil => simp [Scan.moreItems]
  | cons next rest ih =>
      rw [Scan.moreItems, ← ih]
      simp

theorem toList_intercalate_comma (bracket : Char) (items : List String) :
    (String.intercalate "," items).toList ++ [bracket] =
      Scan.itemsText [] [] bracket (items.map String.toList) := by
  cases items with
  | nil => simp [Scan.itemsText]
  | cons item rest =>
      have hitems := intercalate_append [] [] bracket item.toList (rest.map String.toList)
      simpa [Scan.itemsText] using hitems

theorem printItems_eq (items : List Json) : printItems items = items.map print := by
  induction items with
  | nil => rfl
  | cons item rest ih => rw [printItems, ih, List.map_cons]

theorem printMembers_eq (members : List (String × Json)) :
    printMembers members = members.map fun member =>
      printString member.1 ++ ":" ++ print member.2 := by
  induction members with
  | nil => rfl
  | cons member rest ih => rw [printMembers, ih, List.map_cons]

/-- Printing leaves no blanks. -/
theorem text_compact (value : Json) (level : Nat) :
    compact.text level value = value.print.toList := by
  induction value generalizing level with
  | null => rfl
  | bool value => cases value <;> rfl
  | number value => rfl
  | string text => rfl
  | array items ih =>
      have hitems : items.map (compact.text (level + 1)) =
          (printItems items).map String.toList := by
        rw [printItems_eq, List.map_map]
        exact List.map_congr_left fun item hitem => ih item hitem (level + 1)
      rw [text_array, hitems, print, String.toList_append, String.toList_append, List.append_assoc]
      exact congrArg ('[' :: ·) (toList_intercalate_comma ']' _).symm
  | object members ih =>
      have hmembers : (members.map (compact.member (level + 1))).map Scan.memberText =
          (printMembers members).map String.toList := by
        rw [printMembers_eq, List.map_map, List.map_map]
        refine List.map_congr_left fun member hmember => ?_
        simp [Layout.member, ih member hmember, Scan.memberText, printString]
      rw [text_object, hmembers, print, String.toList_append, String.toList_append,
        List.append_assoc]
      exact congrArg ('\x7b' :: ·) (toList_intercalate_comma '\x7d' _).symm

/-- Items on lines of their own are items between blanks. -/
theorem toList_enclose (bracket : Char) {closing : String} (h : closing.toList = [bracket])
    (opening : String) (level : Nat) (items : List String) :
    (enclose opening closing level items).toList =
      opening.toList ++ Scan.itemsText (newLine (level + 1)).toList (newLine level).toList
        bracket (items.map String.toList) := by
  cases items with
  | nil => simp [enclose, Scan.itemsText, h]
  | cons item rest =>
      have hitems := intercalate_append (newLine (level + 1)).toList (newLine level).toList bracket
        item.toList (rest.map String.toList)
      simp [enclose, Scan.itemsText, h, ← hitems]

theorem prettyItems_eq (level : Nat) (items : List Json) :
    prettyItems level items = items.map (pretty level) := by
  induction items with
  | nil => rfl
  | cons item rest ih => rw [prettyItems, ih, List.map_cons]

theorem prettyMembers_eq (level : Nat) (members : List (String × Json)) :
    prettyMembers level members = members.map fun member =>
      printString member.1 ++ ": " ++ pretty level member.2 := by
  induction members with
  | nil => rfl
  | cons member rest ih => rw [prettyMembers, ih, List.map_cons]

/-- Pretty printing puts each item on a line of its own. -/
theorem text_indented (value : Json) (level : Nat) :
    indented.text level value = (value.pretty level).toList := by
  induction value generalizing level with
  | null => rfl
  | bool value => cases value <;> rfl
  | number value => rfl
  | string text => rfl
  | array items ih =>
      have hitems : items.map (indented.text (level + 1)) =
          (prettyItems (level + 1) items).map String.toList := by
        rw [prettyItems_eq, List.map_map]
        exact List.map_congr_left fun item hitem => ih item hitem (level + 1)
      rw [text_array, hitems, pretty, toList_enclose ']' rfl]
      rfl
  | object members ih =>
      have hmembers : (members.map (indented.member (level + 1))).map Scan.memberText =
          (prettyMembers (level + 1) members).map String.toList := by
        rw [prettyMembers_eq, List.map_map, List.map_map]
        refine List.map_congr_left fun member hmember => ?_
        simp [Layout.member, ih member hmember, Scan.memberText, printString]
      rw [text_object, hmembers, pretty, toList_enclose '\x7d' rfl]
      rfl

/-! ## Lengths -/

theorem length_items_lt (level : Nat) (items : List Json) :
    items.length < (layout.text level (array items)).length := by
  have hitems := Scan.length_le_itemsText (layout.line (level + 1)) (layout.line level) ']'
    (items.map (layout.text (level + 1)))
  rw [List.length_map] at hitems
  rw [text_array, List.length_cons]
  exact Nat.lt_succ_of_le hitems

theorem length_members_lt (level : Nat) (members : List (String × Json)) :
    members.length < (layout.text level (object members)).length := by
  have hmembers := Scan.length_le_itemsText (layout.line (level + 1)) (layout.line level) '\x7d'
    ((members.map (layout.member (level + 1))).map Scan.memberText)
  rw [List.length_map, List.length_map] at hmembers
  rw [text_object, List.length_cons]
  exact Nat.lt_succ_of_le hmembers

theorem length_item_lt {items : List Json} {item : Json} (h : item ∈ items) (level : Nat) :
    (layout.text (level + 1) item).length < (layout.text level (array items)).length := by
  have hitem := Scan.length_le_of_mem_items (layout.line (level + 1)) (layout.line level) ']'
    (List.mem_map_of_mem (f := layout.text (level + 1)) h)
  rw [text_array, List.length_cons]
  exact Nat.lt_succ_of_le hitem

theorem length_member_lt {members : List (String × Json)} {member : String × Json}
    (h : member ∈ members) (level : Nat) :
    (layout.text (level + 1) member.2).length < (layout.text level (object members)).length := by
  have hmember := Scan.length_le_of_mem_items (layout.line (level + 1)) (layout.line level) '\x7d'
    (List.mem_map_of_mem (f := Scan.memberText)
      (List.mem_map_of_mem (f := layout.member (level + 1)) h))
  rw [text_object, List.length_cons]
  simp only [Scan.memberText, Layout.member, List.length_cons, List.length_append] at hmember
  omega

end Layout

end YangToProto.Json

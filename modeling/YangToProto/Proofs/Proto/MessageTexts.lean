import YangToProto.Proofs.Proto.PackagePaths
import YangToProto.Proofs.Proto.ValueNames
import YangToProto.Proofs.Text.Lines

/-!
# Messages read off their texts

The text of a message is a list of lines (`Message.render_eq`), and its lines come back from it
because none of them holds a line break (`Text.unlines_injective`). Each line tells what it was
written for: the comment what kind of message it is, the lines behind an enum its values up to the
closing brace, the line of a field its parts. So messages with the same text differ in nothing but
their package and imports (`Message.render_eq_iff`).
-/

namespace YangToProto

open Identifier

/-- A name of ASCII letters, digits and underscores that is not empty. -/
def Identifier.IsWord (name : String) : Prop :=
  name ≠ "" ∧ ∀ c ∈ name.toList, isAllowed c = true

instance (name : String) : Decidable (Identifier.IsWord name) :=
  decidable_of_iff (name ≠ "" ∧ name.toList.all isAllowed = true)
    (and_congr_right fun _ => List.all_eq_true)

instance (package : String) : Decidable (Package.IsName package) :=
  decidable_of_iff ((Segments.split '.' package.toList).all
    fun part => !part.isEmpty && part.all isAllowed) (by simp [Package.IsName])

/-- A word holds no character that is not allowed. -/
theorem Identifier.IsWord.notMem {name : String} (h : IsWord name) {c : Char}
    (hc : isAllowed c = false) : c ∉ name.toList := by
  intro hmem
  rw [h.2 c hmem] at hc
  cases hc

theorem Package.IsName.notMem {name : String} (h : Package.IsName name) {c : Char}
    (hc : isAllowed c = false) (hdot : c ≠ '.') : c ∉ name.toList := by
  intro hmem
  obtain ⟨part, hpart, hmem⟩ := Segments.exists_mem_split hdot hmem
  rw [(h part hpart).2 c hmem] at hc
  cases hc

/-! ## Fields -/

namespace Field

variable {field other : Field}

/-- The field is named by a word, its type is a dotted name, and it has at most one option, without
line breaks. -/
structure Plain (field : Field) : Prop where
  name : IsWord field.name
  typeName : Package.IsName field.typeName
  options : field.options.length ≤ 1
  unbroken : ∀ option ∈ field.options, '\n' ∉ option.toList

instance (field : Field) : Decidable field.Plain :=
  decidable_of_iff (IsWord field.name ∧ Package.IsName field.typeName ∧
    field.options.length ≤ 1 ∧ ∀ option ∈ field.options, '\n' ∉ option.toList)
    ⟨fun ⟨hname, htype, hone, hbreak⟩ => ⟨hname, htype, hone, hbreak⟩,
      fun ⟨hname, htype, hone, hbreak⟩ => ⟨hname, htype, hone, hbreak⟩⟩

def words (field : Field) : List String :=
  (if field.repeated then ["repeated"] else []) ++ [field.typeName, field.name]

def ending (field : Field) : String :=
  (match field.options with
    | [] => ""
    | options => " [" ++ String.intercalate ", " options ++ "]") ++ ";"

def line (field : Field) : String :=
  "  " ++ Segments.toString ' ' field.words ++ " = " ++ Nat.repr field.tag.toNat ++ field.ending

theorem render_eq (field : Field) : field.render = field.line ++ "\n" := by
  change "  " ++ _ ++ (field.typeName ++ " " ++ field.name ++ " = " ++ Nat.repr field.tag.toNat) ++
    (match field.options with
      | [] => ""
      | options => " [" ++ String.intercalate ", " options ++ "]") ++ ";\n" = _
  rw [← String.toList_inj, line, words, ending]
  cases field.repeated <;> simp [Segments.toString, Segments.join]

/-- The line up to the equals sign and from there on. -/
theorem toList_line (field : Field) :
    field.line.toList = (' ' :: ' ' :: (Segments.toString ' ' field.words).toList ++ [' ']) ++
      '=' :: ' ' :: (Nat.toDigits 10 field.tag.toNat ++ field.ending.toList) := by
  simp [line]

theorem words_of_repeated (h : field.repeated = true) :
    field.words = ["repeated", field.typeName, field.name] := by simp [words, h]

theorem words_of_single (h : field.repeated = false) :
    field.words = [field.typeName, field.name] := by simp [words, h]

theorem ending_of_nil (h : field.options = []) : field.ending = ";" := by simp [ending, h]

theorem toList_ending_of_singleton {option : String} (h : field.options = [option]) :
    field.ending.toList = ' ' :: '[' :: (option.toList ++ [']', ';']) := by simp [ending, h]

theorem Plain.notMem_words (h : field.Plain) {c : Char} (hc : isAllowed c = false)
    (hdot : c ≠ '.') : ∀ word ∈ field.words, c ∉ word.toList := by
  have hmark : IsWord "repeated" := ⟨by decide, List.all_eq_true.1 (by decide)⟩
  intro word hword
  cases hrepeated : field.repeated with
  | false =>
      rw [words_of_single hrepeated, List.mem_pair] at hword
      rcases hword with rfl | rfl
      · exact h.typeName.notMem hc hdot
      · exact h.name.notMem hc
  | true =>
      rw [words_of_repeated hrepeated, List.mem_cons, List.mem_pair] at hword
      rcases hword with rfl | rfl | rfl
      · exact hmark.notMem hc
      · exact h.typeName.notMem hc hdot
      · exact h.name.notMem hc

theorem words_ne_nil (field : Field) : field.words ≠ [] := by simp [words]

/-- Up to the equals sign there are characters of words, dots and blanks. -/
theorem Plain.notMem_front (h : field.Plain) {c : Char} (hc : isAllowed c = false) (hdot : c ≠ '.')
    (hblank : c ≠ ' ') :
    c ∉ ' ' :: ' ' :: (Segments.toString ' ' field.words).toList ++ [' '] := by
  have hwords : c ∉ (Segments.toString ' ' field.words).toList := by
    intro hmem
    rw [Segments.toString, String.toList_ofList] at hmem
    obtain ⟨_, hpiece, hmem⟩ := Segments.exists_mem_of_mem_join hblank hmem
    obtain ⟨word, hword, rfl⟩ := List.mem_map.1 hpiece
    exact h.notMem_words hc hdot word hword hmem
  simp [hwords, hblank]

/-- The words tell whether the field is repeated, its type and its name. -/
theorem eq_of_words (heq : field.words = other.words) :
    field.repeated = other.repeated ∧ field.typeName = other.typeName ∧
      field.name = other.name := by
  cases hrepeated : field.repeated with
  | false =>
      cases hother : other.repeated with
      | false => simpa [words_of_single hrepeated, words_of_single hother] using heq
      | true => simp [words_of_single hrepeated, words_of_repeated hother] at heq
  | true =>
      cases hother : other.repeated with
      | false => simp [words_of_repeated hrepeated, words_of_single hother] at heq
      | true => simpa [words_of_repeated hrepeated, words_of_repeated hother] using heq

theorem space_notMem_toDigits (n : Nat) : ' ' ∉ Nat.toDigits 10 n := fun h =>
  absurd (Nat.isDigit_of_mem_toDigits (by decide) (by decide) h) (by decide)

theorem toDigits_injective {m n : Nat} (h : Nat.toDigits 10 m = Nat.toDigits 10 n) : m = n := by
  rw [← Nat.ofDigitChars_ten_toDigits (n := m), h, Nat.ofDigitChars_ten_toDigits]

theorem digits_semicolon_ne (m n : Nat) (rest : List Char) :
    Nat.toDigits 10 m ++ ";".toList ≠ Nat.toDigits 10 n ++ ' ' :: rest := by
  intro heq
  have hmem : ' ' ∈ Nat.toDigits 10 m ++ ";".toList := by rw [heq]; simp
  rcases List.mem_append.1 hmem with hmem | hmem
  · exact space_notMem_toDigits m hmem
  · simp at hmem

/-- What stands behind the equals sign tells the tag and the options. -/
theorem Plain.eq_of_ending (h : field.Plain) (h' : other.Plain)
    (heq : Nat.toDigits 10 field.tag.toNat ++ field.ending.toList =
      Nat.toDigits 10 other.tag.toNat ++ other.ending.toList) :
    field.tag = other.tag ∧ field.options = other.options := by
  match hoptions : field.options, hothers : other.options, h.options, h'.options with
  | [], [], _, _ =>
      rw [ending_of_nil hoptions, ending_of_nil hothers] at heq
      exact ⟨UInt32.toNat_inj.1 (toDigits_injective (List.append_cancel_right heq)), rfl⟩
  | [], [option], _, _ =>
      rw [ending_of_nil hoptions, toList_ending_of_singleton hothers] at heq
      exact absurd heq (digits_semicolon_ne _ _ _)
  | [option], [], _, _ =>
      rw [ending_of_nil hothers, toList_ending_of_singleton hoptions] at heq
      exact absurd heq.symm (digits_semicolon_ne _ _ _)
  | [option], [option'], _, _ =>
      rw [toList_ending_of_singleton hoptions, toList_ending_of_singleton hothers] at heq
      obtain ⟨htag, hrest⟩ := Segments.eq_of_append_cons (space_notMem_toDigits _)
        (space_notMem_toDigits _) heq
      have hoption := List.append_cancel_right (List.cons.inj hrest).2
      rw [String.toList_inj] at hoption
      exact ⟨UInt32.toNat_inj.1 (toDigits_injective htag), by rw [hoption]⟩

/-- A field comes back from its line. -/
theorem Plain.eq_of_line (h : field.Plain) (h' : other.Plain) (heq : field.line = other.line) :
    field = other := by
  have hchars := congrArg String.toList heq
  rw [toList_line, toList_line] at hchars
  obtain ⟨hfront, hback⟩ := Segments.eq_of_append_cons
    (h.notMem_front (by decide) (by decide) (by decide))
    (h'.notMem_front (by decide) (by decide) (by decide)) hchars
  obtain ⟨htag, hoptions⟩ := h.eq_of_ending h' (List.cons.inj hback).2
  have htexts := List.append_cancel_right (List.cons.inj (List.cons.inj hfront).2).2
  have hwords := Segments.toString_injective (words_ne_nil field) (words_ne_nil other)
    (h.notMem_words (by decide) (by decide)) (h'.notMem_words (by decide) (by decide))
    (String.toList_inj.1 htexts)
  obtain ⟨hrepeated, htype, hname⟩ := eq_of_words hwords
  cases field
  cases other
  simp_all

theorem Plain.lineBreak_notMem (h : field.Plain) : '\n' ∉ field.line.toList := by
  have hfront := h.notMem_front (c := '\n') (by decide) (by decide) (by decide)
  have hdigits : '\n' ∉ Nat.toDigits 10 field.tag.toNat := fun hmem =>
    absurd (Nat.isDigit_of_mem_toDigits (by decide) (by decide) hmem) (by decide)
  have hending : '\n' ∉ field.ending.toList := by
    match hoptions : field.options, h.options with
    | [], _ => simp [ending_of_nil hoptions]
    | [option], _ =>
        have hoption := h.unbroken option (hoptions ▸ List.mem_singleton_self option)
        simp [toList_ending_of_singleton hoptions, hoption]
  rw [toList_line, List.mem_append, not_or]
  exact ⟨hfront, by simp [hdigits, hending]⟩

theorem line_ne_brace (field : Field) : field.line ≠ "\x7d" := by
  intro heq
  have hchars := congrArg String.toList heq
  simp [toList_line] at hchars

theorem equals_mem_line (field : Field) : '=' ∈ field.line.toList := by simp [toList_line]

end Field

/-! ## Enums -/

namespace EnumTable

def embeddedLine (enumName : String) (value : Int × String) : String :=
  "    " ++ valueName enumName value.2 ++ " = " ++ toString value.1 ++ ";"

def heading (enumName : String) : String := "  enum " ++ enumName ++ " \x7b"

def lines (entry : String × EnumTable) : List String :=
  heading entry.1 :: (entry.2.entries.map (embeddedLine entry.1) ++ ["  \x7d"])

/-- An embedded enum whose name and symbols are words. -/
def Plain (entry : String × EnumTable) : Prop :=
  IsWord entry.1 ∧ ∀ value ∈ entry.2.entries, IsWord value.2

instance (entry : String × EnumTable) : Decidable (Plain entry) :=
  inferInstanceAs (Decidable (IsWord entry.1 ∧ ∀ value ∈ entry.2.entries, IsWord value.2))

theorem unlines_embeddedLines (enumName : String) (values : EnumTable) :
    Text.unlines (values.entries.map (embeddedLine enumName)) = values.render "    " enumName := by
  rw [render_eq, Text.unlines, List.map_map]
  refine congrArg String.join (List.map_congr_left fun value _ => ?_)
  change embeddedLine enumName value ++ "\n" =
    "    " ++ valueName enumName value.2 ++ " = " ++ toString value.1 ++ ";\n"
  rw [← String.toList_inj]
  simp [embeddedLine]

theorem unlines_lines (entry : String × EnumTable) :
    Text.unlines (lines entry) = Message.renderEnum entry.1 entry.2 := by
  change _ = "  enum " ++ entry.1 ++ " \x7b\n" ++ entry.2.render "    " entry.1 ++ "  \x7d\n"
  rw [← unlines_embeddedLines, lines, ← String.toList_inj, Text.toList_unlines_cons,
    Text.unlines_append]
  simp [Text.unlines, heading]

theorem toList_embeddedLine (enumName : String) (value : Int × String) :
    (embeddedLine enumName value).toList = "    ".toList ++ enumName.toList ++ ['_'] ++
      (value.2.toList ++ ' ' :: '=' :: ' ' :: ((toString value.1).toList ++ [';'])) := by
  simp [embeddedLine, toList_valueName]

/-- A value comes back from its line. -/
theorem eq_of_embeddedLine {enumName : String} {value other : Int × String} (h : IsWord value.2)
    (h' : IsWord other.2) (heq : embeddedLine enumName value = embeddedLine enumName other) :
    value = other := by
  have hchars := congrArg String.toList heq
  rw [toList_embeddedLine, toList_embeddedLine, List.append_cancel_left_eq] at hchars
  obtain ⟨hsymbol, hback⟩ := Segments.eq_of_append_cons (h.notMem (by decide))
    (h'.notMem (by decide)) hchars
  have hnumber := List.append_cancel_right (List.cons.inj (List.cons.inj hback).2).2
  rw [String.toList_inj] at hsymbol hnumber
  exact Prod.ext (Int.repr_inj.1 hnumber) hsymbol

theorem embeddedLine_ne_closing (enumName : String) (value : Int × String) :
    embeddedLine enumName value ≠ "  \x7d" := by
  intro heq
  have hchars := congrArg String.toList heq
  simp [embeddedLine] at hchars

/-- The lines of an enum tell it, whatever lines follow. -/
theorem eq_of_lines {entry other : String × EnumTable} {rest more : List String}
    (h : Plain entry) (h' : Plain other) (heq : lines entry ++ rest = lines other ++ more) :
    entry = other ∧ rest = more := by
  rw [lines, lines, List.cons_append, List.cons_append, List.append_assoc, List.append_assoc] at heq
  obtain ⟨hheading, hvalues⟩ := List.cons.inj heq
  have hname : entry.1 = other.1 := by
    have hchars := congrArg String.toList hheading
    rw [← String.toList_inj]
    simpa [heading] using hchars
  rw [hname] at hvalues
  obtain ⟨hentries, hrest⟩ := Text.eq_of_map_append_cons
    (fun value _ => embeddedLine_ne_closing other.1 value)
    (fun value hvalue other hother => eq_of_embeddedLine (h.2 value hvalue) (h'.2 other hother))
    hvalues
  exact ⟨Prod.ext hname (SortedMap.eq_of_perm (.of_eq hentries)), hrest⟩

theorem lineBreak_notMem_repr (n : Int) : '\n' ∉ n.repr.toList := by
  have hdigits : ∀ k : Nat, '\n' ∉ Nat.toDigits 10 k := fun k hmem =>
    absurd (Nat.isDigit_of_mem_toDigits (by decide) (by decide) hmem) (by decide)
  rw [Int.repr_eq_if]
  split
  · simp [Nat.repr, hdigits]
  · simp [Nat.repr, hdigits]

theorem lineBreak_notMem {entry : String × EnumTable} (h : Plain entry) :
    ∀ line ∈ lines entry, '\n' ∉ line.toList := by
  have hname : '\n' ∉ entry.1.toList := h.1.notMem (by decide)
  intro line hline
  simp only [lines, List.mem_cons, List.mem_append, List.mem_map, List.not_mem_nil,
    or_false] at hline
  rcases hline with rfl | ⟨value, hvalue, rfl⟩ | rfl
  · simp [heading, hname]
  · have hsymbol : '\n' ∉ value.2.toList := (h.2 value hvalue).notMem (by decide)
    have hnumber : '\n' ∉ value.1.repr.toList := lineBreak_notMem_repr value.1
    simp [toList_embeddedLine, hname, hsymbol, hnumber]
  · decide

theorem equals_notMem_heading {enumName : String} (h : IsWord enumName) :
    '=' ∉ (heading enumName).toList := by
  have hname : '=' ∉ enumName.toList := h.notMem (by decide)
  simp [heading, hname]

end EnumTable

/-! ## Messages -/

namespace Message

variable {message other : Message}

/-- The message, its enums and their symbols are named by words, its fields are plain, and its
schema path has no line breaks. -/
structure Plain (message : Message) : Prop where
  name : IsWord message.name
  schemaPath : '\n' ∉ message.schemaPath.toList
  enums : ∀ entry ∈ message.enums.entries, EnumTable.Plain entry
  fields : ∀ field ∈ message.fields, field.Plain

instance (message : Message) : Decidable message.Plain :=
  decidable_of_iff (IsWord message.name ∧ '\n' ∉ message.schemaPath.toList ∧
    (∀ entry ∈ message.enums.entries, EnumTable.Plain entry) ∧
    ∀ field ∈ message.fields, field.Plain)
    ⟨fun ⟨hname, hpath, henums, hfields⟩ => ⟨hname, hpath, henums, hfields⟩,
      fun ⟨hname, hpath, henums, hfields⟩ => ⟨hname, hpath, henums, hfields⟩⟩

/-- What stands between the name and the schema path in the comment above a message. -/
def opening : MessageKind → String
  | .directory => "represents the "
  | .listKey => "represents the list element "

def ending : MessageKind → String
  | .directory => " YANG schema element."
  | .listKey => " of the YANG schema. It"

def moreComment : MessageKind → List String
  | .directory => []
  | .listKey =>
    ["// contains only the keys of the list, and an embedded message containing all entries",
      "// below this entity in the schema."]

def commentLines (message : Message) : List String :=
  ("// " ++ message.name ++ " " ++ opening message.kind ++ message.schemaPath ++
    ending message.kind) :: moreComment message.kind

def body (enums : List (String × EnumTable)) (fields : List Field) : List String :=
  enums.flatMap EnumTable.lines ++ (fields.map Field.line ++ ["\x7d"])

def lines (message : Message) : List String :=
  "" :: (message.commentLines ++
    ("message " ++ message.name ++ " \x7b") :: body message.enums.entries message.fields)

theorem unlines_moreComment_listKey : Text.unlines (moreComment .listKey) =
    "// contains only the keys of the list, and an embedded message containing all entries\n" ++
    "// below this entity in the schema.\n" := by decide

theorem unlines_commentLines (message : Message) :
    Text.unlines message.commentLines = message.comment := by
  rw [commentLines, comment, Text.unlines_cons]
  cases message.kind with
  | directory =>
      have hopening : " represents the " = " " ++ "represents the " := by decide
      have hending : " YANG schema element.\n" = " YANG schema element." ++ "\n" := by decide
      change _ = "// " ++ message.name ++ " represents the " ++ message.schemaPath ++
        " YANG schema element.\n"
      rw [hopening, hending]
      simp only [opening, ending, moreComment, Text.unlines_nil, String.append_assoc,
        String.append_empty]
  | listKey =>
      have hopening : " represents the list element " = " " ++ "represents the list element " := by
        decide
      have hending : " of the YANG schema. It" = " " ++ "of the YANG schema. It" := by decide
      have hbreak : "of the YANG schema. It\n" = "of the YANG schema. It" ++ "\n" := by decide
      change _ = "// " ++ message.name ++ " represents the list element " ++ message.schemaPath ++
        " " ++ "of the YANG schema. It\n" ++ _ ++ _
      rw [unlines_moreComment_listKey, hopening, hbreak]
      simp only [opening, ending, hending, String.append_assoc]

theorem unlines_body (enums : List (String × EnumTable)) (fields : List Field) :
    Text.unlines (body enums fields) =
      String.join (enums.map fun entry => renderEnum entry.1 entry.2) ++
        (String.join (fields.map Field.render) ++ "\x7d\n") := by
  have henums : (fun entry => Text.unlines (EnumTable.lines entry)) =
      fun entry => renderEnum entry.1 entry.2 := funext EnumTable.unlines_lines
  have hfields : Text.unlines (fields.map Field.line) = String.join (fields.map Field.render) := by
    rw [Text.unlines, List.map_map]
    exact congrArg String.join (List.map_congr_left fun field _ => (Field.render_eq field).symm)
  rw [body, Text.unlines_append, Text.unlines_append, Text.unlines_flatMap, henums, hfields]
  rfl

/-- The text of a message is that of its lines. -/
theorem render_eq (message : Message) : message.render = Text.unlines message.lines := by
  change "\n" ++ message.comment ++ ("message " ++ message.name ++ " \x7b\n") ++
    String.join (message.enums.entries.map fun entry => renderEnum entry.1 entry.2) ++ _ ++
    "\x7d\n" = _
  rw [lines, ← String.toList_inj]
  simp [Text.toList_unlines_cons, Text.unlines_append, unlines_commentLines, unlines_body]

theorem Plain.lineBreak_notMem (h : message.Plain) :
    ∀ line ∈ message.lines, '\n' ∉ line.toList := by
  have hname : '\n' ∉ message.name.toList := h.name.notMem (by decide)
  have hkind : ∀ kind, '\n' ∉ (opening kind).toList ∧ '\n' ∉ (ending kind).toList ∧
      ∀ line ∈ moreComment kind, '\n' ∉ line.toList := by
    intro kind
    cases kind <;> decide
  obtain ⟨hopening, hending, hmore⟩ := hkind message.kind
  intro line hline
  simp only [lines, commentLines, body, List.mem_cons, List.mem_append, List.mem_flatMap,
    List.mem_map, List.not_mem_nil, or_false] at hline
  rcases hline with rfl | (rfl | hline) | rfl | ⟨entry, hentry, hline⟩ | ⟨field, hfield, rfl⟩ | rfl
  · decide
  · simp [hname, hopening, h.schemaPath, hending]
  · exact hmore line hline
  · simp [hname]
  · exact EnumTable.lineBreak_notMem (h.enums entry hentry) line hline
  · exact (h.fields field hfield).lineBreak_notMem
  · decide

/-! ## Reading back -/

theorem body_nil_ne {entry : String × EnumTable} (h : EnumTable.Plain entry)
    (rest : List (String × EnumTable)) (fields fields' : List Field) :
    body [] fields ≠ body (entry :: rest) fields' := by
  intro heq
  rw [body, body, List.flatMap_nil, List.nil_append, List.flatMap_cons, EnumTable.lines,
    List.cons_append, List.cons_append] at heq
  cases fields with
  | nil =>
      have hchars := congrArg String.toList (List.cons.inj heq).1
      simp [EnumTable.heading] at hchars
  | cons field fields =>
      have hmem := field.equals_mem_line
      rw [(List.cons.inj heq).1] at hmem
      exact EnumTable.equals_notMem_heading h.1 hmem

/-- The lines of enums and fields tell them. -/
theorem eq_of_body {enums others : List (String × EnumTable)} {fields fields' : List Field}
    (henums : ∀ entry ∈ enums, EnumTable.Plain entry)
    (hothers : ∀ entry ∈ others, EnumTable.Plain entry)
    (hfields : ∀ field ∈ fields, field.Plain) (hfields' : ∀ field ∈ fields', field.Plain)
    (heq : body enums fields = body others fields') : enums = others ∧ fields = fields' := by
  induction enums generalizing others with
  | nil =>
      cases others with
      | nil =>
          obtain ⟨hsame, _⟩ := Text.eq_of_map_append_cons (fun field _ => field.line_ne_brace)
            (fun field hfield other hother =>
              (hfields field hfield).eq_of_line (hfields' other hother)) heq
          exact ⟨rfl, hsame⟩
      | cons entry rest =>
          exact absurd heq (body_nil_ne (hothers entry List.mem_cons_self) _ _ _)
  | cons entry rest ih =>
      cases others with
      | nil => exact absurd heq.symm (body_nil_ne (henums entry List.mem_cons_self) _ _ _)
      | cons other others =>
          rw [body, body, List.flatMap_cons, List.flatMap_cons, List.append_assoc,
            List.append_assoc] at heq
          obtain ⟨rfl, hrest⟩ := EnumTable.eq_of_lines (henums entry List.mem_cons_self)
            (hothers other List.mem_cons_self) heq
          obtain ⟨rfl, hsame⟩ := ih (fun one hone => henums one (List.mem_cons_of_mem _ hone))
            (fun one hone => hothers one (List.mem_cons_of_mem _ hone)) hrest
          exact ⟨rfl, hsame⟩

/-- The first line of the comment ends differently for each kind. -/
theorem eq_of_ending {text text' : String} {kind kind' : MessageKind}
    (heq : text ++ ending kind = text' ++ ending kind') : kind = kind' := by
  have hlast : ∀ (text : String) kind, (text ++ ending kind).toList.getLast? =
      (ending kind).toList.getLast? := by
    intro text kind
    cases kind <;> simp [ending]
  have hdiffer : (ending .directory).toList.getLast? ≠ (ending .listKey).toList.getLast? := by
    decide
  have hends := congrArg (fun line => line.toList.getLast?) heq
  rw [hlast, hlast] at hends
  cases kind with
  | directory =>
      cases kind' with
      | directory => rfl
      | listKey => exact absurd hends hdiffer
  | listKey =>
      cases kind' with
      | directory => exact absurd hends.symm hdiffer
      | listKey => rfl

/-- The comment tells the kind of a message, its name and its schema path. -/
theorem Plain.eq_of_commentLines (h : message.Plain) (h' : other.Plain) {rest more : List String}
    (heq : message.commentLines ++ rest = other.commentLines ++ more) :
    message.name = other.name ∧ message.kind = other.kind ∧
      message.schemaPath = other.schemaPath ∧ rest = more := by
  rw [commentLines, commentLines, List.cons_append, List.cons_append] at heq
  obtain ⟨hline, hrest⟩ := List.cons.inj heq
  have hkind := eq_of_ending hline
  rw [hkind] at hline hrest
  have hchars := congrArg String.toList hline
  have hcut : message.name.toList ++ ' ' ::
      ((opening other.kind).toList ++ message.schemaPath.toList ++ (ending other.kind).toList) =
      other.name.toList ++ ' ' ::
      ((opening other.kind).toList ++ other.schemaPath.toList ++ (ending other.kind).toList) := by
    simpa using hchars
  obtain ⟨hname, hback⟩ := Segments.eq_of_append_cons (h.name.notMem (by decide))
    (h'.name.notMem (by decide)) hcut
  have hpath := List.append_cancel_left (List.append_cancel_right hback)
  exact ⟨String.toList_inj.1 hname, hkind, String.toList_inj.1 hpath, List.append_cancel_left hrest⟩

/-- Plain messages have the same text exactly if they differ in nothing but their package and their
imports. -/
theorem render_eq_iff (h : message.Plain) (h' : other.Plain) :
    message.render = other.render ↔
      message.name = other.name ∧ message.kind = other.kind ∧
        message.schemaPath = other.schemaPath ∧ message.enums = other.enums ∧
        message.fields = other.fields := by
  constructor
  · intro heq
    rw [render_eq, render_eq] at heq
    have hlines := Text.unlines_injective h.lineBreak_notMem h'.lineBreak_notMem heq
    obtain ⟨hname, hkind, hpath, hrest⟩ := h.eq_of_commentLines h' (List.cons.inj hlines).2
    obtain ⟨henums, hfields⟩ := eq_of_body h.enums h'.enums h.fields h'.fields
      (List.cons.inj hrest).2
    exact ⟨hname, hkind, hpath, SortedMap.eq_of_perm (.of_eq henums), hfields⟩
  · rintro ⟨hname, hkind, hpath, henums, hfields⟩
    rw [render_eq, render_eq, lines, lines, commentLines, commentLines, hname, hkind, hpath, henums,
      hfields]

/-- A field whose type and name read like the mark of repeated fields: another package makes no
difference, but without the mark the text is another one. -/
theorem render_eq_iff_repeated :
    let field : Field :=
      ⟨19000, "repeated", "repeated", true, ["(yext.schemapath) = \"/m/top/repeated\""]⟩
    let message : Message := ⟨"Top", "openconfig", "/m/top", [field],
      SortedMap.ofList [("State", SortedMap.ofList [(0, "UNSET"), (-1, "1_UP")])], [], .listKey⟩
    let moved : Message := { message with package := "acme", imports := ["openconfig/enums"] }
    let single : Message := { message with fields := [{ field with repeated := false }] }
    message.Plain ∧ moved.Plain ∧ single.Plain ∧
      message.render = moved.render ∧ message.render ≠ single.render := by
  intro field message moved single
  have hmessage : message.Plain := by decide
  have hmoved : moved.Plain := by decide
  have hsingle : single.Plain := by decide
  have hsame : message.render = moved.render :=
    (render_eq_iff hmessage hmoved).2 ⟨rfl, rfl, rfl, rfl, rfl⟩
  refine ⟨hmessage, hmoved, hsingle, hsame, ?_⟩
  intro heq
  obtain ⟨_, _, _, _, hfields⟩ := (render_eq_iff hmessage hsingle).1 heq
  exact absurd hfields (by decide)

end Message

end YangToProto

import YangToProto.Proofs.Json.Layout

/-!
# Reading values in any layout

A value without fractions is read back from its text in every layout (`Scan.takes_value`). Where
the items of an array or the members of an object have readers of their own, the array or object is
read if they are (`takes_expectList`, `takes_expectMembers`).
-/

namespace YangToProto

open Json (Layout)

namespace Json

/-- A value whose numbers are whole and fit 64 bits, with a sign or without. -/
inductive Whole : Json → Prop
  | null : Whole null
  | bool (value : Bool) : Whole (bool value)
  | ofInt {value : Int} (hlow : -0x8000000000000000 ≤ value) (hhigh : value ≤ Scan.largestWord) :
      Whole (ofInt value)
  | string (text : String) : Whole (string text)
  | array {items : List Json} (hitems : ∀ item ∈ items, Whole item) : Whole (array items)
  | object {members : List (String × Json)} (hmembers : ∀ member ∈ members, Whole member.2) :
      Whole (object members)

end Json

namespace Scan

variable {α β σ : Type} {layout : Layout} {rounds depth level : Nat}

/-! ## Any value -/

theorem value_number {c : Char} (hc : c = '-' ∨ c.isDigit = true) {blanks : List Char}
    (hblanks : Blank blanks) (rest : List Char) :
    value rounds depth (blanks ++ c :: rest) =
      (number >>= fun found => pure (Json.number found)) (c :: rest) := by
  rcases hc with rfl | hdigit
  · rw [value.eq_def, bind_of_ok (peek_blanks hblanks rfl)]
    rfl
  · have hother : c ∉ ['"', 'n', 't', 'f', '[', '\x7b'] := notMem_of_isDigit hdigit (by decide)
    simp only [List.mem_cons, List.not_mem_nil, or_false, not_or] at hother
    obtain ⟨hquote, hn, ht, hf, hlist, hobject⟩ := hother
    rw [value.eq_def, bind_of_ok (peek_blanks hblanks (isSpace_of_isDigit hdigit))]
    simp [hdigit]

/-- Takes what stands behind the name of a member of any object. -/
def valueMember (rounds depth : Nat) (name : String) (found : List (String × Json)) :
    Scan (List (String × Json)) := do
  colon
  return (name, ← value rounds depth) :: found

theorem gathers_values (members : List (String × Json))
    (h : ∀ member ∈ members, Takes (value rounds depth) (layout.text level member.2) member.2)
    (found : List (String × Json)) :
    Gathers (valueMember rounds depth) found (members.map (layout.member level))
      (members.reverse ++ found) := by
  induction members generalizing found with
  | nil => exact .nil
  | cons member rest ih =>
      obtain ⟨hmember, hmore⟩ := List.forall_mem_cons.1 h
      have hrest := ih hmore (member :: found)
      rw [List.reverse_cons, List.append_assoc]
      exact .cons (takes_behind_colon layout.blank_space (hmember.map _)) hrest

theorem text_string (layout : Layout) (level : Nat) (text : String) (rest : List Char) :
    layout.text level (.string text) ++ rest =
      '"' :: (text.toList.flatMap Json.escape ++ '"' :: rest) := by
  simp [Layout.text, Json.printString]

/-- The text of a value can be an item. -/
theorem starts_text {v : Json} (h : v.Whole) (level : Nat) : Starts (layout.text level v) := by
  cases h with
  | null => exact ⟨'n', _, rfl, rfl, by decide⟩
  | bool value => cases value <;> exact ⟨_, _, rfl, rfl, by decide⟩
  | @ofInt n hlow hhigh =>
      obtain ⟨c, rest, htext, hc⟩ := exists_start_of_int n
      rcases hc with rfl | hdigit
      · exact ⟨'-', rest, htext, rfl, by decide⟩
      · have hbracket : c ∉ [']'] := notMem_of_isDigit hdigit (by decide)
        exact ⟨c, rest, htext, isSpace_of_isDigit hdigit,
          fun heq => hbracket (List.mem_singleton.2 heq)⟩
  | string text =>
      have htext := text_string layout level text []
      rw [List.append_nil] at htext
      exact ⟨'"', _, htext, rfl, by decide⟩
  | array hitems => exact ⟨'[', _, rfl, rfl, by decide⟩
  | object hmembers => exact ⟨'\x7b', _, rfl, rfl, by decide⟩

theorem exists_start_string (layout : Layout) (level : Nat) (text : String) :
    ∃ c rest, layout.text level (.string text) = c :: rest ∧ isSpace c = false ∧ c ≠ 'n' := by
  have htext := text_string layout level text []
  rw [List.append_nil] at htext
  exact ⟨'"', _, htext, rfl, by decide⟩

theorem exists_start_object (layout : Layout) (level : Nat) (members : List (String × Json)) :
    ∃ c rest, layout.text level (.object members) = c :: rest ∧ isSpace c = false ∧ c ≠ 'n' :=
  ⟨'\x7b', _, rfl, rfl, by decide⟩

theorem takes_value_array {items : List Json}
    (h : ∀ item ∈ items, Starts (layout.text (level + 1) item) ∧
      Takes (value rounds depth) (layout.text (level + 1) item) item)
    (hrounds : (layout.text level (.array items)).length ≤ rounds) :
    Takes (value rounds (depth + 1)) (layout.text level (.array items)) (.array items) := by
  intro blanks rest hblanks hrest
  have hcount := Nat.lt_of_lt_of_le (layout.length_items_lt level items) hrounds
  have hread := items_items (layout.blank_line (level + 1)) (layout.blank_line level) h hcount rest
  rw [layout.text_array, List.cons_append, value.eq_def, bind_of_ok (peek_blanks hblanks rfl)]
  change (advance >>= fun _ => Scan.items (value rounds depth) true rounds >>=
    fun found => pure (Json.array found)) _ = _
  rw [bind_of_ok (advance_cons _ _), map_of_ok hread]

theorem takes_value_object {members : List (String × Json)}
    (h : ∀ member ∈ members,
      Takes (value rounds depth) (layout.text (level + 1) member.2) member.2)
    (hrounds : (layout.text level (.object members)).length ≤ rounds) :
    Takes (value rounds (depth + 1)) (layout.text level (.object members)) (.object members) := by
  intro blanks rest hblanks hrest
  have hcount : (members.map (layout.member (level + 1))).length < rounds := by
    rw [List.length_map]
    exact Nat.lt_of_lt_of_le (layout.length_members_lt level members) hrounds
  have hread := members_items (layout.blank_line (level + 1)) (layout.blank_line level)
    (gathers_values members h []) hcount rest
  rw [layout.text_object, List.cons_append, value.eq_def, bind_of_ok (peek_blanks hblanks rfl)]
  change (advance >>= fun _ => Scan.members (valueMember rounds depth) true [] rounds >>=
    fun found => pure (Json.object found.reverse)) _ = _
  rw [bind_of_ok (advance_cons _ _), map_of_ok hread, List.append_nil, List.reverse_reverse]

/-- A value without fractions is read back if it does not nest too deep. -/
theorem takes_value {v : Json} (h : v.Whole) (hdepth : v.depth ≤ depth)
    (hrounds : (layout.text level v).length ≤ rounds) :
    Takes (value rounds depth) (layout.text level v) v := by
  induction h generalizing depth level with
  | null =>
      intro blanks rest hblanks hrest
      have htext : layout.text level .null ++ rest = 'n' :: 'u' :: 'l' :: 'l' :: rest := rfl
      rw [htext, value.eq_def, bind_of_ok (peek_blanks hblanks rfl)]
      rfl
  | bool value =>
      intro blanks rest hblanks hrest
      cases value with
      | false =>
          have htext : layout.text level (.bool false) ++ rest =
              'f' :: 'a' :: 'l' :: 's' :: 'e' :: rest := rfl
          rw [htext, value.eq_def, bind_of_ok (peek_blanks hblanks rfl)]
          rfl
      | true =>
          have htext : layout.text level (.bool true) ++ rest =
              't' :: 'r' :: 'u' :: 'e' :: rest := rfl
          rw [htext, value.eq_def, bind_of_ok (peek_blanks hblanks rfl)]
          rfl
  | @ofInt n hlow hhigh =>
      intro blanks rest hblanks hrest
      obtain ⟨c, more, htext, hc⟩ := exists_start_of_int n
      have hread := number_printed hlow hhigh hrest
      have hprinted : layout.text level (.ofInt n) = (toString n).toList := rfl
      rw [htext, List.cons_append] at hread
      rw [hprinted, htext, List.cons_append, value_number hc hblanks, map_of_ok hread]
      rfl
  | string text =>
      intro blanks rest hblanks hrest
      rw [text_string, value.eq_def, bind_of_ok (peek_blanks hblanks rfl)]
      change (advance >>= fun _ => Scan.string >>= fun text => pure (Json.string text)) _ = _
      rw [bind_of_ok (advance_cons _ _), map_of_ok (string_printed _ _)]
  | @array items hitems ih =>
      obtain ⟨depth, rfl⟩ := Nat.exists_eq_succ_of_ne_zero (Nat.ne_zero_of_lt hdepth)
      refine takes_value_array (fun item hitem => ?_) hrounds
      have hbelow := Json.depth_lt_of_mem_items hitem
      have hlength := layout.length_item_lt hitem level
      exact ⟨starts_text (hitems item hitem) _, ih item hitem (by omega) (by omega)⟩
  | @object members hmembers ih =>
      obtain ⟨depth, rfl⟩ := Nat.exists_eq_succ_of_ne_zero (Nat.ne_zero_of_lt hdepth)
      refine takes_value_object (fun member hmember => ?_) hrounds
      have hbelow := Json.depth_lt_of_mem_members hmember
      have hlength := layout.length_member_lt hmember level
      exact ih member hmember (by omega) (by omega)

/-! ## Expected values -/

theorem takes_expectString (layout : Layout) (level : Nat) (expected text : String) :
    Takes (expectString expected) (layout.text level (.string text)) text := by
  intro blanks rest hblanks hrest
  rw [text_string, expectString, bind_of_ok (peek_blanks hblanks rfl)]
  change (advance >>= fun _ => Scan.string) _ = _
  rw [bind_of_ok (advance_cons _ _), string_printed]

/-- A value that may be null is read if it does not start like null. -/
theorem takes_expectOption {reader : Scan α} {text : List Char} {x : α} (h : Takes reader text x)
    (hstart : ∃ c rest, text = c :: rest ∧ isSpace c = false ∧ c ≠ 'n') :
    Takes (expectOption reader) text (some x) := by
  obtain ⟨c, more, rfl, hspace, hnull⟩ := hstart
  intro blanks rest hblanks hrest
  have hread := h.apply hrest
  rw [List.cons_append] at hread ⊢
  have hother : some c ≠ some 'n' := fun heq => hnull (Option.some.inj heq)
  rw [expectOption, bind_of_ok (peek_blanks hblanks hspace)]
  -- `hother` rules the case of null out
  simp only
  exact map_of_ok hread

/-- The items of an array are read if each of them is. -/
theorem takes_expectList {item : Nat → Scan α} (form : α → Json) {xs : List α}
    (h : ∀ x ∈ xs, Starts (layout.text (level + 1) (form x)) ∧
      Takes (item depth) (layout.text (level + 1) (form x)) x)
    (hrounds : (layout.text level (.array (xs.map form))).length ≤ rounds) :
    Takes (expectList rounds (depth + 1) item) (layout.text level (.array (xs.map form))) xs := by
  intro blanks rest hblanks hrest
  have hcount := layout.length_items_lt level (xs.map form)
  rw [List.length_map] at hcount
  have hread : Scan.items (item depth) true rounds (itemsText (layout.line (level + 1))
      (layout.line level) ']' (xs.map (layout.text (level + 1) ∘ form)) ++ rest) = .ok (xs, rest) :=
    items_items (layout.blank_line (level + 1)) (layout.blank_line level) h
      (Nat.lt_of_lt_of_le hcount hrounds) rest
  rw [layout.text_array, List.map_map, List.cons_append, expectList,
    bind_of_ok (peek_blanks hblanks rfl)]
  change (advance >>= fun _ => Scan.items (item depth) true rounds) _ = _
  rw [bind_of_ok (advance_cons _ _), hread]

/-- The members of an object are read if they are gathered in turn. -/
theorem takes_expectMembers (member : Nat → String → σ → Scan σ) {s s' : σ}
    {members : List (String × Json)}
    (h : Gathers (member depth) s (members.map (layout.member (level + 1))) s')
    (hrounds : (layout.text level (.object members)).length ≤ rounds) (expected : String) :
    Takes (expectMembers expected rounds (depth + 1) member s)
      (layout.text level (.object members)) s' := by
  have hcount : (members.map (layout.member (level + 1))).length < rounds := by
    rw [List.length_map]
    exact Nat.lt_of_lt_of_le (layout.length_members_lt level members) hrounds
  rw [layout.text_object]
  exact takes_members member (layout.blank_line (level + 1)) (layout.blank_line level) h hcount
    expected

/-- A value is taken behind a name that is met for the first time. -/
theorem takes_once {reader : Scan α} {v : Json} {x : α}
    (h : Takes reader (layout.text level v) x) (name : String) :
    Takes (once name none reader) (layout.member level (name, v)).2 (some x) :=
  takes_behind_colon layout.blank_space (h.map some)

end Scan

end YangToProto

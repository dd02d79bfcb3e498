import Mathlib.Tactic.SplitIfs
import YangToProto.Json.Print
import YangToProto.Json.Scan

/-!
# Reading printed JSON

Readers take back what is printed, whatever stands behind it: a reader `Takes` a text for a value if
it comes to the value in front of everything that may follow one. Strings are read back whatever
they hold, whole numbers up to 64 bits, and objects member by member (`Gathers`, `takes_members`),
with any blanks between the members. The items of an array are read one by one (`items_items`).
-/

namespace YangToProto.Scan

variable {α β σ : Type}

/-- Only blanks. -/
def Blank (text : List Char) : Prop := ∀ c ∈ text, isSpace c = true

/-- A text that may follow a value: it goes on with a blank, a comma or a closing bracket, if it
goes on at all. -/
def Ends (text : List Char) : Prop :=
  ∀ c ∈ text.head?, c ∈ [' ', '\n', '\t', '\x0d', ',', ']', '\x7d']

/-- The reader takes the text, with blanks in front of it, as the value, and leaves what follows. -/
def Takes (reader : Scan α) (text : List Char) (value : α) : Prop :=
  ∀ blanks rest, Blank blanks → Ends rest → reader (blanks ++ (text ++ rest)) = .ok (value, rest)

theorem blank_nil : Blank [] := fun _ h => absurd h List.not_mem_nil

theorem Blank.append {text more : List Char} (h : Blank text) (h' : Blank more) :
    Blank (text ++ more) := fun c hc => (List.mem_append.1 hc).elim (h c) (h' c)

theorem Blank.ends {text rest : List Char} (h : Blank text) (hne : text ≠ []) :
    Ends (text ++ rest) := by
  cases text with
  | nil => exact absurd rfl hne
  | cons c more =>
      have hc := h c List.mem_cons_self
      simp only [isSpace, Bool.or_eq_true, beq_iff_eq] at hc
      rintro c' hc'
      cases hc'
      grind

theorem Takes.apply {reader : Scan α} {text rest : List Char} {value : α}
    (h : Takes reader text value) (hrest : Ends rest) : reader (text ++ rest) = .ok (value, rest) :=
  h [] rest blank_nil hrest

theorem bind_of_ok {reader : Scan α} {next : α → Scan β} {text rest : List Char} {value : α}
    (h : reader text = .ok (value, rest)) : (reader >>= next) text = next value rest := by
  change (reader text >>= fun result => next result.1 result.2) = next value rest
  rw [h]
  rfl

theorem map_of_ok {reader : Scan α} {f : α → β} {text rest : List Char} {value : α}
    (h : reader text = .ok (value, rest)) :
    (reader >>= fun x => pure (f x)) text = .ok (f value, rest) := bind_of_ok h

theorem Takes.map {reader : Scan α} {text : List Char} {value : α} (h : Takes reader text value)
    (f : α → β) : Takes (reader >>= fun x => pure (f x)) text (f value) :=
  fun blanks rest hblanks hrest => map_of_ok (h blanks rest hblanks hrest)

/-- Blanks in front of a character are skipped. -/
theorem peek_blanks {blanks rest : List Char} {c : Char} (h : Blank blanks)
    (hc : isSpace c = false) : peek (blanks ++ c :: rest) = .ok (some c, c :: rest) := by
  have hskip : (blanks ++ c :: rest).dropWhile isSpace = c :: rest := by
    rw [List.dropWhile_append_of_pos h, List.dropWhile_cons_of_neg (by simp [hc])]
  simp only [peek, hskip, List.head?_cons]

theorem peek_cons {c : Char} (hc : isSpace c = false) (rest : List Char) :
    peek (c :: rest) = .ok (some c, c :: rest) := peek_blanks blank_nil hc

theorem advance_cons (c : Char) (rest : List Char) : advance (c :: rest) = .ok ((), rest) := rfl

theorem colon_blanks {blanks rest : List Char} (h : Blank blanks) :
    colon (blanks ++ ':' :: rest) = .ok ((), rest) := by
  rw [colon, bind_of_ok (peek_blanks h rfl)]
  rfl

/-- What stands behind a name is read behind the colon. -/
theorem takes_behind_colon {reader : Scan α} {space text : List Char} {value : α}
    (hspace : Blank space) (h : Takes reader text value) :
    Takes (colon >>= fun _ => reader) (':' :: (space ++ text)) value := by
  intro blanks rest hblanks hrest
  rw [List.cons_append, bind_of_ok (colon_blanks hblanks), List.append_assoc]
  exact h space rest hspace hrest

/-! ## Strings -/

theorem hexNumber?_hexDigit :
    ∀ n < 32, hexNumber? '0' '0' (Json.hexDigit (n / 16)) (Json.hexDigit n) = some n := by
  decide +kernel

theorem stringBody_plain {c : Char} (hquote : c ≠ '"') (hslash : c ≠ '\\') (h : ¬ c.toNat < 0x20)
    (read rest : List Char) : stringBody read (c :: rest) = stringBody (c :: read) rest := by
  rw [stringBody]
  · rw [if_neg h]
  · exact hquote
  · exact fun heq _ => hslash heq
  · exact fun _ _ _ _ _ heq _ => hslash heq
  · exact fun _ heq _ => hslash heq
  · exact fun _ _ heq _ => hslash heq

theorem stringBody_control {c : Char} (h : c.toNat < 0x20) (read rest : List Char) :
    stringBody read ('\\' :: 'u' :: '0' :: '0' :: Json.hexDigit (c.toNat / 16) ::
      Json.hexDigit c.toNat :: rest) = stringBody (c :: read) rest := by
  have hlow : isLowSurrogate c.toNat = false := by
    simp [isLowSurrogate]
    omega
  have hhigh : isHighSurrogate c.toNat = false := by
    simp [isHighSurrogate]
    omega
  simp [stringBody, hexNumber?_hexDigit c.toNat h, hlow, hhigh, Char.ofNat_toNat]

theorem stringBody_escaped {letter c : Char} (h : escaped? letter = some c)
    (read rest : List Char) :
    stringBody read ('\\' :: letter :: rest) = stringBody (c :: read) rest := by
  have hletter : letter ≠ 'u' := by
    rintro rfl
    cases h
  rw [stringBody]
  · rw [h]
  · exact fun _ _ _ _ _ heq _ => hletter heq
  · exact fun heq => hletter heq

/-- A character is read back from what stands for it in a string. -/
theorem stringBody_escape (c : Char) (read rest : List Char) :
    stringBody read (Json.escape c ++ rest) = stringBody (c :: read) rest := by
  unfold Json.escape
  split_ifs with hquote hslash hback hfeed hline hreturn htab hcontrol
  · subst hquote; exact stringBody_escaped rfl read rest
  · subst hslash; exact stringBody_escaped rfl read rest
  · exact hback ▸ stringBody_escaped rfl read rest
  · exact hfeed ▸ stringBody_escaped rfl read rest
  · exact hline ▸ stringBody_escaped rfl read rest
  · exact hreturn ▸ stringBody_escaped rfl read rest
  · exact htab ▸ stringBody_escaped rfl read rest
  · exact stringBody_control hcontrol read rest
  · exact stringBody_plain hquote hslash hcontrol read rest

theorem stringBody_flatMap_escape (chars read rest : List Char) :
    stringBody read (chars.flatMap Json.escape ++ '"' :: rest) =
      .ok (read.reverse ++ chars, rest) := by
  induction chars generalizing read with
  | nil => simp [stringBody]
  | cons c more ih =>
      rw [List.flatMap_cons, List.append_assoc, stringBody_escape, ih]
      simp

/-- The text of a string behind its opening quote. -/
theorem string_printed (text : String) (rest : List Char) :
    string (text.toList.flatMap Json.escape ++ '"' :: rest) = .ok (text, rest) := by
  simp only [string, stringBody_flatMap_escape, List.reverse_nil, List.nil_append]
  simp [Except.map]

/-! ## Whole numbers -/

theorem le_ofDigitChars (digits : List Char) (start : Nat) :
    start ≤ Nat.ofDigitChars 10 digits start := by
  rw [Nat.ofDigitChars_eq_ofDigitChars_zero]
  exact Nat.le_add_right_of_le (Nat.le_mul_of_pos_left _ (Nat.pow_pos (Nat.succ_pos 9)))

theorem isSpace_of_isDigit {c : Char} (h : c.isDigit = true) : isSpace c = false := by
  simp only [isSpace, Bool.or_eq_false_iff, beq_eq_false_iff_ne]
  refine ⟨⟨⟨?_, ?_⟩, ?_⟩, ?_⟩ <;> (rintro rfl; exact absurd h (by decide))

/-- A digit is none of some other characters. -/
theorem notMem_of_isDigit {c : Char} (h : c.isDigit = true) {marks : List Char}
    (hmarks : (marks.all fun mark => !mark.isDigit) = true) : c ∉ marks := by
  intro hmem
  have hmark := List.all_eq_true.1 hmarks c hmem
  rw [h] at hmark
  exact absurd hmark (by decide)

theorem addDigits_append {digits rest : List Char} (hdigits : ∀ c ∈ digits, c.isDigit = true)
    (hrest : ∀ c ∈ rest.head?, c.isDigit = false) (start count : Nat)
    (hfits : Nat.ofDigitChars 10 digits start ≤ largestWord) :
    addDigits start count (digits ++ rest) =
      (Nat.ofDigitChars 10 digits start, count + digits.length, rest) := by
  induction digits generalizing start count with
  | nil =>
      cases rest with
      | nil => rfl
      | cons c more => simp [addDigits, hrest c rfl]
  | cons c more ih =>
      have hvalue : start * 10 + digitValue c = 10 * start + (c.toNat - '0'.toNat) := by
        rw [Nat.mul_comm]
        rfl
      rw [Nat.ofDigitChars_cons, ← hvalue] at hfits
      have hstep := Nat.le_trans (le_ofDigitChars more _) hfits
      have hmore := ih (fun c' h => hdigits c' (List.mem_cons_of_mem _ h)) _ (count + 1) hfits
      rw [List.cons_append, addDigits, hdigits c List.mem_cons_self, Bool.true_and,
        if_pos (decide_eq_true hstep), hmore, Nat.ofDigitChars_cons, hvalue, List.length_cons,
        Nat.add_assoc, Nat.add_comm 1]

theorem exists_digit_toDigits (n : Nat) :
    ∃ c rest, Nat.toDigits 10 n = c :: rest ∧ c.isDigit = true := by
  cases htext : Nat.toDigits 10 n with
  | nil => exact absurd htext Nat.toDigits_ne_nil
  | cons c rest =>
      have hc : c ∈ Nat.toDigits 10 n := htext ▸ List.mem_cons_self
      exact ⟨c, rest, rfl, Nat.isDigit_of_mem_toDigits (by decide) (by decide) hc⟩

/-- A positive number does not start with the digit zero. -/
theorem head?_toDigits_ne_zero {n : Nat} (h : 0 < n) : (Nat.toDigits 10 n).head? ≠ some '0' := by
  induction n using Nat.strongRecOn with
  | ind n ih =>
      by_cases hsmall : n < 10
      · rw [Nat.toDigits_of_lt_base hsmall]
        simp only [List.head?_cons, ne_eq, Option.some.injEq, Nat.digitChar_eq_zero]
        omega
      · rw [Nat.toDigits_of_base_le (by decide) (by omega), List.head?_append,
          List.head?_eq_some_head Nat.toDigits_ne_nil, Option.some_or, ← List.head?_eq_some_head]
        exact ih (n / 10) (by omega) (by omega)

theorem Ends.not_isDigit {rest : List Char} (h : Ends rest) :
    ∀ c ∈ rest.head?, c.isDigit = false := by
  have hmarks : ∀ c ∈ [' ', '\n', '\t', '\x0d', ',', ']', '\x7d'], c.isDigit = false := by
    simp [Char.isDigit]
  exact fun c hc => hmarks c (h c hc)

/-- Neither a fraction nor an exponent follows. -/
theorem Ends.not_fraction {rest : List Char} (h : Ends rest) :
    ∀ c ∈ rest.head?, c ≠ '.' ∧ c ≠ 'e' ∧ c ≠ 'E' := by
  have hmarks : ∀ c ∈ [' ', '\n', '\t', '\x0d', ',', ']', '\x7d'],
      c ≠ '.' ∧ c ≠ 'e' ∧ c ≠ 'E' := by simp
  exact fun c hc => hmarks c (h c hc)

theorem afterWhole_of_ends {rest : List Char} (h : Ends rest) (negative : Bool) (n : Nat) :
    afterWhole negative n 0 rest = .ok (wholeNumber negative n, rest) := by
  cases rest with
  | nil => rfl
  | cons c more =>
      obtain ⟨hpoint, hlower, hupper⟩ := h.not_fraction c rfl
      rw [afterWhole]
      · rfl
      · exact fun _ heq => hpoint (List.cons.inj heq).1
      · exact fun _ heq => hlower (List.cons.inj heq).1
      · exact fun _ heq => hupper (List.cons.inj heq).1

theorem unsignedNumber_toDigits {n : Nat} (hfits : n ≤ largestWord) {rest : List Char}
    (h : Ends rest) (negative : Bool) :
    unsignedNumber negative (Nat.toDigits 10 n ++ rest) = .ok (wholeNumber negative n, rest) := by
  rcases Nat.eq_zero_or_pos n with rfl | hpos
  · have hnext : (rest.head?.map Char.isDigit).getD false = false := by
      cases hhead : rest.head? with
      | none => rfl
      | some c => exact h.not_isDigit c hhead
    rw [Nat.toDigits_zero]
    simp [unsignedNumber, hnext, afterWhole_of_ends h]
  · have hdigits : ∀ c ∈ Nat.toDigits 10 n, c.isDigit = true := fun c hc =>
      Nat.isDigit_of_mem_toDigits (by decide) (by decide) hc
    have hread := addDigits_append hdigits h.not_isDigit 0 0
      (by rwa [Nat.ofDigitChars_ten_toDigits])
    have hhead := head?_toDigits_ne_zero hpos
    rw [Nat.ofDigitChars_ten_toDigits] at hread
    cases htext : Nat.toDigits 10 n with
    | nil => exact absurd htext Nat.toDigits_ne_nil
    | cons c more =>
        rw [htext] at hdigits hread hhead
        have hc : c ≠ '0' := fun heq => hhead (by rw [heq]; rfl)
        have hfirst := hdigits c List.mem_cons_self
        have hbehind : rest.takeWhile Char.isDigit = [] ∧ rest.dropWhile Char.isDigit = rest := by
          cases rest with
          | nil => exact ⟨rfl, rfl⟩
          | cons c' _ => simp [h.not_isDigit c' rfl]
        rw [List.cons_append] at hread ⊢
        rw [unsignedNumber]
        · simp [hfirst, hread, hbehind, afterWhole_of_ends h]
        · exact fun heq => hc heq

/-- A number without a sign is read back if it fits 64 bits. -/
theorem number_toString {n : Nat} (hfits : n ≤ largestWord) {rest : List Char} (h : Ends rest) :
    number ((toString n).toList ++ rest) = .ok (.integer n, rest) := by
  have hread := unsignedNumber_toDigits hfits h false
  rw [Nat.toString_eq_ofList_toDigits, String.toList_ofList]
  rw [number]
  · rw [hread]
    rfl
  · intro more heq
    have hmem : '-' ∈ Nat.toDigits 10 n := by
      cases htext : Nat.toDigits 10 n with
      | nil => exact absurd htext Nat.toDigits_ne_nil
      | cons c _ =>
          rw [htext] at heq
          exact List.mem_cons.2 (.inl (List.cons.inj heq).1.symm)
    exact absurd (Nat.isDigit_of_mem_toDigits (by decide) (by decide) hmem) (by decide)

/-- A whole number with a sign or without is read back if it fits 64 bits. -/
theorem number_printed {n : Int} (hlow : -0x8000000000000000 ≤ n) (hhigh : n ≤ largestWord)
    {rest : List Char} (h : Ends rest) :
    number ((toString n).toList ++ rest) = .ok (.integer n, rest) := by
  cases n with
  | ofNat n => exact number_toString (Int.ofNat_le.1 hhigh) h
  | negSucc n =>
      have hfits : n + 1 ≤ 0x8000000000000000 := by omega
      have hread := unsignedNumber_toDigits
        (Nat.le_trans hfits (by decide : 0x8000000000000000 ≤ largestWord)) h true
      have htext : (toString (Int.negSucc n)).toList = '-' :: Nat.toDigits 10 (n + 1) := by
        change ("-" ++ Nat.repr (n + 1)).toList = _
        simp [Nat.repr]
      have hnumber : wholeNumber true (n + 1) = .integer (Int.negSucc n) := by
        rw [wholeNumber, if_pos rfl, if_neg (by omega)]
        rfl
      rw [htext, List.cons_append, number, hread, hnumber]

/-- A number starts with a digit or a sign. -/
theorem exists_start_of_int (n : Int) :
    ∃ c rest, (toString n).toList = c :: rest ∧ (c = '-' ∨ c.isDigit = true) := by
  cases n with
  | ofNat n =>
      obtain ⟨c, rest, htext, hdigit⟩ := exists_digit_toDigits n
      change ∃ c rest, (toString n).toList = c :: rest ∧ _
      rw [Nat.toString_eq_ofList_toDigits, String.toList_ofList]
      exact ⟨c, rest, htext, .inr hdigit⟩
  | negSucc n =>
      change ∃ c rest, ("-" ++ Nat.repr (n + 1)).toList = c :: rest ∧ _
      rw [String.toList_append]
      exact ⟨'-', _, rfl, .inl rfl⟩

/-! ## Objects -/

/-- The text of items behind an opening bracket: `gap` stands before each item and `last` before the
closing bracket, if there are items at all. -/
def moreItems (gap last : List Char) (closing : Char) : List (List Char) → List Char
  | [] => last ++ [closing]
  | item :: rest => ',' :: (gap ++ (item ++ moreItems gap last closing rest))

@[inherit_doc moreItems]
def itemsText (gap last : List Char) (closing : Char) : List (List Char) → List Char
  | [] => [closing]
  | item :: rest => gap ++ (item ++ moreItems gap last closing rest)

def memberText (member : String × List Char) : List Char :=
  '"' :: (member.1.toList.flatMap Json.escape ++ '"' :: member.2)

/-- Members taken in turn from a state to another, each given by its name and the text behind it. -/
inductive Gathers (member : String → σ → Scan σ) : σ → List (String × List Char) → σ → Prop
  | nil {s : σ} : Gathers member s [] s
  | cons {s s' s'' : σ} {name : String} {text : List Char} {rest : List (String × List Char)} :
      Takes (member name s) text s' → Gathers member s' rest s'' →
        Gathers member s ((name, text) :: rest) s''

theorem Gathers.append {member : String → σ → Scan σ} {s s' s'' : σ}
    {found more : List (String × List Char)} (h : Gathers member s found s')
    (h' : Gathers member s' more s'') : Gathers member s (found ++ more) s'' := by
  induction h with
  | nil => exact h'
  | cons htake _ ih => exact .cons htake (ih h')

theorem ends_brace : Ends ['\x7d'] := by simp [Ends]

theorem ends_bracket : Ends [']'] := by simp [Ends]

theorem ends_moreItems (gap : List Char) {last : List Char} (hlast : Blank last) {closing : Char}
    (hclosing : Ends [closing]) (items : List (List Char)) (rest : List Char) :
    Ends (moreItems gap last closing items ++ rest) := by
  cases items with
  | nil =>
      cases last with
      | nil => exact hclosing
      | cons c more =>
          rw [moreItems, List.append_assoc]
          exact hlast.ends (List.cons_ne_nil c more)
  | cons item more =>
      rintro c hc
      cases hc
      decide

theorem nextName_member {gap : List Char} (hgap : Blank gap) (name : String)
    (text rest : List Char) :
    nextName true (gap ++ (memberText (name, text) ++ rest)) = .ok (some name, text ++ rest) := by
  have htext : memberText (name, text) ++ rest =
      '"' :: (name.toList.flatMap Json.escape ++ '"' :: (text ++ rest)) := by simp [memberText]
  rw [nextName, htext, bind_of_ok (peek_blanks hgap rfl)]
  change (advance >>= fun _ => string >>= fun name => pure (some name)) _ = _
  rw [bind_of_ok (advance_cons _ _), map_of_ok (string_printed _ _)]

theorem nextName_comma {gap : List Char} (hgap : Blank gap) (name : String)
    (text rest : List Char) :
    nextName false (',' :: (gap ++ (memberText (name, text) ++ rest))) =
      .ok (some name, text ++ rest) := by
  have htext : memberText (name, text) ++ rest =
      '"' :: (name.toList.flatMap Json.escape ++ '"' :: (text ++ rest)) := by simp [memberText]
  rw [nextName, htext, bind_of_ok (peek_cons rfl _)]
  change (advance >>= fun _ => peek >>= _) _ = _
  rw [bind_of_ok (advance_cons _ _), bind_of_ok (peek_blanks hgap rfl)]
  change (advance >>= fun _ => string >>= fun name => pure (some name)) _ = _
  rw [bind_of_ok (advance_cons _ _), map_of_ok (string_printed _ _)]

theorem nextName_closing {last : List Char} (hlast : Blank last) (first : Bool)
    (rest : List Char) :
    nextName first (last ++ '\x7d' :: rest) = .ok (none, '\x7d' :: rest) := by
  rw [nextName, bind_of_ok (peek_blanks hlast rfl)]
  rfl

theorem members_more {member : String → σ → Scan σ} {gap last : List Char} (hgap : Blank gap)
    (hlast : Blank last) {s s' : σ} {found : List (String × List Char)}
    (h : Gathers member s found s') {rounds : Nat} (hrounds : found.length < rounds)
    (rest : List Char) :
    members member false s rounds (moreItems gap last '\x7d' (found.map memberText) ++ rest) =
      .ok (s', rest) := by
  induction h generalizing rounds with
  | nil =>
      obtain ⟨rounds, rfl⟩ := Nat.exists_eq_succ_of_ne_zero (Nat.ne_of_gt hrounds)
      rw [members, List.map_nil, moreItems, List.append_assoc, List.singleton_append,
        bind_of_ok (nextName_closing hlast false rest)]
      rfl
  | @cons s s' s'' name text found htake _ ih =>
      obtain ⟨rounds, rfl⟩ :=
        Nat.exists_eq_succ_of_ne_zero (Nat.ne_of_gt (Nat.zero_lt_of_lt hrounds))
      have hends := ends_moreItems gap hlast ends_brace (found.map memberText) rest
      rw [members, List.map_cons, moreItems, List.cons_append, List.append_assoc, List.append_assoc,
        bind_of_ok (nextName_comma hgap name text _)]
      change (member name s >>= fun state => members member false state rounds) _ = _
      rw [bind_of_ok (htake.apply hends), ih (Nat.lt_of_succ_lt_succ hrounds)]

theorem members_items {member : String → σ → Scan σ} {gap last : List Char} (hgap : Blank gap)
    (hlast : Blank last) {s s' : σ} {found : List (String × List Char)}
    (h : Gathers member s found s') {rounds : Nat} (hrounds : found.length < rounds)
    (rest : List Char) :
    members member true s rounds (itemsText gap last '\x7d' (found.map memberText) ++ rest) =
      .ok (s', rest) := by
  obtain ⟨rounds, rfl⟩ := Nat.exists_eq_succ_of_ne_zero (Nat.ne_of_gt (Nat.zero_lt_of_lt hrounds))
  rw [members]
  cases h with
  | nil =>
      have hclosing : nextName true ('\x7d' :: rest) = .ok (none, '\x7d' :: rest) :=
        nextName_closing blank_nil true rest
      rw [List.map_nil, itemsText, List.singleton_append, bind_of_ok hclosing]
      rfl
  | @cons _ s' _ name text found htake hfound =>
      have hends := ends_moreItems gap hlast ends_brace (found.map memberText) rest
      rw [List.map_cons, itemsText, List.append_assoc, List.append_assoc,
        bind_of_ok (nextName_member hgap name text _)]
      change (member name s >>= fun state => members member false state rounds) _ = _
      rw [bind_of_ok (htake.apply hends),
        members_more hgap hlast hfound (Nat.lt_of_succ_lt_succ hrounds)]

/-- An object is read member by member. -/
theorem takes_members (member : Nat → String → σ → Scan σ) {gap last : List Char}
    (hgap : Blank gap) (hlast : Blank last) {depth : Nat} {s s' : σ}
    {found : List (String × List Char)} (h : Gathers (member depth) s found s') {rounds : Nat}
    (hrounds : found.length < rounds) (expected : String) :
    Takes (expectMembers expected rounds (depth + 1) member s)
      ('\x7b' :: itemsText gap last '\x7d' (found.map memberText)) s' := by
  intro blanks rest hblanks hrest
  rw [expectMembers, List.cons_append, bind_of_ok (peek_blanks hblanks rfl)]
  change (advance >>= fun _ => members (member depth) true s rounds) _ = _
  rw [bind_of_ok (advance_cons _ _), members_items hgap hlast h hrounds]

/-! ## Arrays -/

/-- A text that starts with something other than a blank or a closing bracket. -/
def Starts (text : List Char) : Prop :=
  ∃ c rest, text = c :: rest ∧ isSpace c = false ∧ c ≠ ']'

theorem nextItem_first {gap text : List Char} (hgap : Blank gap) (h : Starts text)
    (rest : List Char) : nextItem true (gap ++ (text ++ rest)) = .ok (true, text ++ rest) := by
  obtain ⟨c, more, rfl, hc, hbracket⟩ := h
  rw [nextItem, List.cons_append, bind_of_ok (peek_blanks hgap hc)]
  -- `hbracket` rules the end of the list out
  simp only
  rfl

theorem nextItem_comma {gap text : List Char} (hgap : Blank gap) (h : Starts text)
    (rest : List Char) :
    nextItem false (',' :: (gap ++ (text ++ rest))) = .ok (true, text ++ rest) := by
  obtain ⟨c, more, rfl, hc, hbracket⟩ := h
  rw [nextItem, bind_of_ok (peek_cons rfl _)]
  change (advance >>= fun _ => peek >>= _) _ = _
  rw [bind_of_ok (advance_cons _ _), List.cons_append, bind_of_ok (peek_blanks hgap hc)]
  simp only
  rfl

theorem nextItem_closing {last : List Char} (hlast : Blank last) (first : Bool)
    (rest : List Char) : nextItem first (last ++ ']' :: rest) = .ok (false, ']' :: rest) := by
  rw [nextItem, bind_of_ok (peek_blanks hlast rfl)]
  rfl

theorem items_more {item : Scan α} {form : α → List Char} {gap last : List Char}
    (hgap : Blank gap) (hlast : Blank last) {xs : List α}
    (h : ∀ x ∈ xs, Starts (form x) ∧ Takes item (form x) x) {rounds : Nat}
    (hrounds : xs.length < rounds) (rest : List Char) :
    items item false rounds (moreItems gap last ']' (xs.map form) ++ rest) = .ok (xs, rest) := by
  induction xs generalizing rounds with
  | nil =>
      obtain ⟨rounds, rfl⟩ := Nat.exists_eq_succ_of_ne_zero (Nat.ne_of_gt hrounds)
      rw [items, List.map_nil, moreItems, List.append_assoc, List.singleton_append,
        bind_of_ok (nextItem_closing hlast false rest)]
      rfl
  | cons x xs ih =>
      obtain ⟨rounds, rfl⟩ :=
        Nat.exists_eq_succ_of_ne_zero (Nat.ne_of_gt (Nat.zero_lt_of_lt hrounds))
      obtain ⟨⟨hstarts, htake⟩, hmore⟩ := List.forall_mem_cons.1 h
      have hends := ends_moreItems gap hlast ends_bracket (xs.map form) rest
      rw [items, List.map_cons, moreItems, List.cons_append, List.append_assoc, List.append_assoc,
        bind_of_ok (nextItem_comma hgap hstarts _)]
      change (item >>= fun x => items item false rounds >>= fun rest => pure (x :: rest)) _ = _
      rw [bind_of_ok (htake.apply hends),
        map_of_ok (ih hmore (Nat.lt_of_succ_lt_succ hrounds))]

theorem items_items {item : Scan α} {form : α → List Char} {gap last : List Char}
    (hgap : Blank gap) (hlast : Blank last) {xs : List α}
    (h : ∀ x ∈ xs, Starts (form x) ∧ Takes item (form x) x) {rounds : Nat}
    (hrounds : xs.length < rounds) (rest : List Char) :
    items item true rounds (itemsText gap last ']' (xs.map form) ++ rest) = .ok (xs, rest) := by
  obtain ⟨rounds, rfl⟩ := Nat.exists_eq_succ_of_ne_zero (Nat.ne_of_gt (Nat.zero_lt_of_lt hrounds))
  rw [items]
  cases xs with
  | nil =>
      have hclosing : nextItem true (']' :: rest) = .ok (false, ']' :: rest) :=
        nextItem_closing blank_nil true rest
      rw [List.map_nil, itemsText, List.singleton_append, bind_of_ok hclosing]
      rfl
  | cons x xs =>
      obtain ⟨⟨hstarts, htake⟩, hmore⟩ := List.forall_mem_cons.1 h
      have hends := ends_moreItems gap hlast ends_bracket (xs.map form) rest
      rw [List.map_cons, itemsText, List.append_assoc, List.append_assoc,
        bind_of_ok (nextItem_first hgap hstarts _)]
      change (item >>= fun x => items item false rounds >>= fun rest => pure (x :: rest)) _ = _
      rw [bind_of_ok (htake.apply hends),
        map_of_ok (items_more hgap hlast hmore (Nat.lt_of_succ_lt_succ hrounds) rest)]

/-! ## Lengths -/

theorem length_le_itemsText (gap last : List Char) (closing : Char) (items : List (List Char)) :
    items.length ≤ (itemsText gap last closing items).length := by
  have hmore : ∀ items : List (List Char),
      items.length < (moreItems gap last closing items).length := by
    intro items
    induction items with
    | nil => simp [moreItems]
    | cons item rest ih =>
        simp only [moreItems, List.length_cons, List.length_append]
        omega
  cases items with
  | nil => exact Nat.zero_le _
  | cons item rest =>
      have hrest := hmore rest
      simp only [itemsText, List.length_cons, List.length_append]
      omega

theorem length_le_of_mem_items (gap last : List Char) (closing : Char) {items : List (List Char)}
    {item : List Char} (h : item ∈ items) :
    item.length ≤ (itemsText gap last closing items).length := by
  have hmore : ∀ items : List (List Char), item ∈ items →
      item.length ≤ (moreItems gap last closing items).length := by
    intro items hmem
    induction items with
    | nil => exact absurd hmem List.not_mem_nil
    | cons other rest ih =>
        simp only [moreItems, List.length_cons, List.length_append]
        rcases List.mem_cons.1 hmem with rfl | hrest
        · omega
        · have := ih hrest
          omega
  cases items with
  | nil => exact absurd h List.not_mem_nil
  | cons other rest =>
      simp only [itemsText, List.length_append]
      rcases List.mem_cons.1 h with rfl | hrest
      · omega
      · have := hmore rest hrest
        omega

end YangToProto.Scan

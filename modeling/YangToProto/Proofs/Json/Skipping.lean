import YangToProto.Proofs.Json.Layout

/-!
# Skipping printed JSON

A printed value is skipped up to its end, whatever follows, if there are as many rounds as it has
characters (`Scan.Skips`). What is taken as a string is skipped as a string
(`skipString_of_stringBody`); objects are skipped member by member (`skips_object`).
-/

namespace YangToProto.Scan

open Json (Layout blank_newLine)

/-- The text is a value that is skipped. -/
def Skips (text : List Char) : Prop :=
  ∀ ⦃rounds : Nat⦄ ⦃blanks rest : List Char⦄, text.length ≤ rounds → Blank blanks → Ends rest →
    skipValue rounds (blanks ++ (text ++ rest)) = .ok ((), rest)

/-! ## Strings and numbers -/

/-- Where a string is taken, the same characters are skipped. -/
theorem skipString_of_stringBody {read text found rest : List Char}
    (h : stringBody read text = .ok (found, rest)) : skipString text = .ok rest := by
  fun_induction stringBody read text with
  | case2 =>
      cases h
      rfl
  | case9 read a b c d high hhigh hfirst hsecond e f g h' more low hlow hlast ih =>
      simp [skipString, hhigh, hlow, ih h]
  | case13 read a b c d more n hn hlow hhigh ih => simp [skipString, hn, ih h]
  | case15 read letter more hhex hletter plain hplain ih =>
      simp only [skipString]
      rw [hplain]
      exact ih h
  | case18 read c more hquote hend hhex hletter hescape hcontrol ih =>
      rw [skipString]
      · rw [if_neg hcontrol]
        exact ih h
      · exact hquote
      · exact hend
      · exact hhex
      · exact hletter
      · exact hescape
  | _ => cases h

theorem skipString_printed (text : String) (rest : List Char) :
    skipString (text.toList.flatMap Json.escape ++ '"' :: rest) = .ok rest :=
  skipString_of_stringBody (stringBody_flatMap_escape _ [] rest)

theorem skipAfterWhole_of_ends {rest : List Char} (h : Ends rest) :
    skipAfterWhole rest = .ok rest := by
  cases rest with
  | nil => rfl
  | cons c more =>
      obtain ⟨hpoint, hlower, hupper⟩ := h.not_fraction c rfl
      rw [skipAfterWhole]
      · exact fun _ _ heq => hpoint (List.cons.inj heq).1
      · exact fun heq => hpoint (List.cons.inj heq).1
      · exact fun _ heq => hlower (List.cons.inj heq).1
      · exact fun _ heq => hupper (List.cons.inj heq).1

theorem skipUnsigned_toDigits (n : Nat) {rest : List Char} (h : Ends rest) :
    skipUnsigned (Nat.toDigits 10 n ++ rest) = .ok rest := by
  rcases Nat.eq_zero_or_pos n with rfl | hpos
  · have hnext : (rest.head?.map Char.isDigit).getD false = false := by
      cases hhead : rest.head? with
      | none => rfl
      | some c => exact h.not_isDigit c hhead
    rw [Nat.toDigits_zero]
    simp [skipUnsigned, hnext, skipAfterWhole_of_ends h]
  · have hdigits : ∀ c ∈ Nat.toDigits 10 n, c.isDigit = true := fun c hc =>
      Nat.isDigit_of_mem_toDigits (by decide) (by decide) hc
    have hhead := head?_toDigits_ne_zero hpos
    cases htext : Nat.toDigits 10 n with
    | nil => exact absurd htext Nat.toDigits_ne_nil
    | cons c more =>
        rw [htext] at hdigits hhead
        have hc : c ≠ '0' := fun heq => hhead (by rw [heq]; rfl)
        have hmore : (more ++ rest).dropWhile Char.isDigit = rest := by
          rw [List.dropWhile_append_of_pos fun c' hc' => hdigits c' (List.mem_cons_of_mem _ hc')]
          cases rest with
          | nil => rfl
          | cons c' _ => simp [h.not_isDigit c' rfl]
        rw [List.cons_append, skipUnsigned]
        · simp [hdigits c List.mem_cons_self, hmore, skipAfterWhole_of_ends h]
        · exact fun heq => hc heq

theorem skips_number (n : Nat) : Skips (toString n).toList := by
  intro rounds blanks rest hrounds hblanks hrest
  have hskip := skipUnsigned_toDigits n hrest
  obtain ⟨c, more, htext, hdigit⟩ := exists_digit_toDigits n
  rw [Nat.toString_eq_ofList_toDigits, String.toList_ofList, htext] at hrounds ⊢
  rw [htext, List.cons_append] at hskip
  obtain ⟨rounds, rfl⟩ := Nat.exists_eq_succ_of_ne_zero (Nat.ne_zero_of_lt hrounds)
  rw [skipValue, List.cons_append, bind_of_ok (peek_blanks hblanks (isSpace_of_isDigit hdigit))]
  have hother : c ∉ ['"', 'n', 't', 'f', '[', '\x7b', '-'] := notMem_of_isDigit hdigit (by decide)
  simp only [List.mem_cons, List.not_mem_nil, or_false, not_or] at hother
  obtain ⟨hquote, hn, ht, hf, hlist, hobject, hminus⟩ := hother
  have hskipped : skipNumber (c :: (more ++ rest)) = .ok rest := by
    rw [skipNumber]
    · exact hskip
    · exact fun _ heq => hminus (List.cons.inj heq).1
  simp [hdigit, skipping, hskipped]
  rfl

/-! ## Objects -/

/-- Skips what follows a member up to the end of the object. -/
def skipBehindMember (rounds : Nat) : Scan Unit := do
  match ← peek with
  | none => unfinished .object
  | some '\x7d' => advance
  | some ',' =>
    advance
    skipMembers rounds
  | some _ => malformed .expectedObjectCommaOrEnd

theorem skipMembers_member {name : String} {text : List Char} (h : Skips text) {rounds : Nat}
    (hrounds : text.length ≤ rounds) {blanks rest : List Char} (hblanks : Blank blanks)
    (hrest : Ends rest) :
    skipMembers (rounds + 1) (blanks ++ (memberText (name, ':' :: ' ' :: text) ++ rest)) =
      skipBehindMember rounds rest := by
  have htext : memberText (name, ':' :: ' ' :: text) ++ rest =
      '"' :: (name.toList.flatMap Json.escape ++ '"' :: ':' :: ([' '] ++ (text ++ rest))) := by
    simp [memberText]
  have hspace : Blank [' '] := by simp [Blank, isSpace]
  have hname : skipping skipString
      (name.toList.flatMap Json.escape ++ '"' :: ':' :: ([' '] ++ (text ++ rest))) =
        .ok ((), ':' :: ([' '] ++ (text ++ rest))) := by
    rw [skipping, skipString_printed]
    rfl
  have hcolon : colon (':' :: ([' '] ++ (text ++ rest))) = .ok ((), [' '] ++ (text ++ rest)) :=
    colon_blanks blank_nil
  rw [skipMembers, htext, bind_of_ok (peek_blanks hblanks rfl)]
  change (advance >>= fun _ => skipping skipString >>= fun _ => colon >>= fun _ =>
    skipValue rounds >>= fun _ => skipBehindMember rounds) _ = _
  rw [bind_of_ok (advance_cons _ _), bind_of_ok hname, bind_of_ok hcolon,
    bind_of_ok (h hrounds hspace hrest)]

/-- A member is skipped if its value is: its text is a colon, a blank and the value. -/
def SkipsMember (member : String × List Char) : Prop :=
  ∃ text, member.2 = ':' :: ' ' :: text ∧ Skips text

theorem skipMembers_items {gap last : List Char} (hgap : Blank gap) (hlast : Blank last)
    {member : String × List Char} {more : List (String × List Char)} (h : SkipsMember member)
    (hmore : ∀ other ∈ more, SkipsMember other) {rounds : Nat}
    (hrounds : (memberText member ++ moreItems gap last '\x7d' (more.map memberText)).length ≤
      rounds) {blanks : List Char} (hblanks : Blank blanks) (rest : List Char) :
    skipMembers rounds (blanks ++
      (memberText member ++ (moreItems gap last '\x7d' (more.map memberText) ++ rest))) =
        .ok ((), rest) := by
  induction more generalizing member rounds blanks with
  | nil =>
      obtain ⟨name, behind⟩ := member
      obtain ⟨text, rfl, hskips⟩ := h
      simp only [memberText, List.length_append, List.length_cons] at hrounds
      obtain ⟨rounds, rfl⟩ := Nat.exists_eq_succ_of_ne_zero (by omega : rounds ≠ 0)
      have hends := ends_moreItems gap hlast ends_brace [] rest
      rw [List.map_nil, skipMembers_member hskips (by omega) hblanks hends, skipBehindMember,
        moreItems, List.append_assoc, List.singleton_append, bind_of_ok (peek_blanks hlast rfl)]
      rfl
  | cons next more ih =>
      obtain ⟨name, behind⟩ := member
      obtain ⟨text, rfl, hskips⟩ := h
      obtain ⟨hnext, hothers⟩ := List.forall_mem_cons.1 hmore
      rw [List.map_cons, moreItems] at hrounds ⊢
      simp only [memberText, List.length_append, List.length_cons] at hrounds
      obtain ⟨rounds, rfl⟩ := Nat.exists_eq_succ_of_ne_zero (by omega : rounds ≠ 0)
      have hends := ends_moreItems gap hlast ends_brace ((next :: more).map memberText) rest
      rw [List.map_cons, moreItems] at hends
      have hfits : (memberText next ++ moreItems gap last '\x7d' (more.map memberText)).length ≤
          rounds := by
        simp only [memberText, List.length_append, List.length_cons]
        omega
      rw [skipMembers_member hskips (by omega) hblanks hends, skipBehindMember, List.cons_append,
        bind_of_ok (peek_cons rfl _)]
      change (advance >>= fun _ => skipMembers rounds) _ = _
      rw [bind_of_ok (advance_cons _ _), List.append_assoc, List.append_assoc,
        ih hnext hothers hfits hgap]

/-- An object is skipped if its members are. -/
theorem skips_object {gap last : List Char} (hgap : Blank gap) (hlast : Blank last)
    {members : List (String × List Char)} (h : ∀ member ∈ members, SkipsMember member) :
    Skips ('\x7b' :: itemsText gap last '\x7d' (members.map memberText)) := by
  intro rounds blanks rest hrounds hblanks hrest
  obtain ⟨rounds, rfl⟩ := Nat.exists_eq_succ_of_ne_zero
    (Nat.ne_of_gt (Nat.lt_of_lt_of_le (Nat.succ_pos _) hrounds))
  rw [skipValue, List.cons_append, bind_of_ok (peek_blanks hblanks rfl)]
  change (advance >>= fun _ => peek >>= _) _ = _
  rw [bind_of_ok (advance_cons _ _)]
  cases members with
  | nil =>
      rw [List.map_nil, itemsText, List.singleton_append, bind_of_ok (peek_cons rfl rest)]
      rfl
  | cons member more =>
      obtain ⟨hmember, hmore⟩ := List.forall_mem_cons.1 h
      rw [List.map_cons, itemsText] at hrounds ⊢
      rw [List.length_cons, List.length_append] at hrounds
      have hfits : (memberText member ++ moreItems gap last '\x7d' (more.map memberText)).length ≤
          rounds := by omega
      rw [List.append_assoc, List.append_assoc, memberText, List.cons_append,
        bind_of_ok (peek_blanks hgap rfl)]
      exact skipMembers_items hgap hlast hmember hmore hfits blank_nil rest

theorem skips_indented_object {members : List (String × Json)} {level : Nat}
    (h : ∀ member ∈ members, Skips (Layout.indented.text (level + 1) member.2)) :
    Skips (Layout.indented.text level (.object members)) := by
  rw [Layout.text_object]
  refine skips_object (blank_newLine (level + 1)) (blank_newLine level) fun member hmember => ?_
  obtain ⟨other, hother, rfl⟩ := List.mem_map.1 hmember
  exact ⟨_, rfl, h other hother⟩

end YangToProto.Scan

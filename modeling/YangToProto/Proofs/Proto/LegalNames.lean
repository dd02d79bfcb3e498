import Mathlib
import YangToProto.Proofs.Proto.FreeNames

/-!
# Legal names

Sanitizing turns a schema name into a legal identifier, and running its words together does so
exactly if the name opens with a letter (`Identifier.isLegal_pascalCase_iff`): what a name has left
without its separators may be nothing, or may start with a digit. A numeric suffix changes that only
for the empty name.

A name made from the words of another one holds no underscore but that of its suffix, and never
starts with a lower-case letter.
-/

namespace YangToProto

namespace Identifier

variable {name : String}

/-- Whether a name is one that a schema may use: a letter or an underscore, and then letters, digits
and separators other than the blank. -/
def isSchemaName (name : String) : Bool :=
  match name.toList with
  | [] => false
  | c :: rest => (c.isAlpha || c == '_') && rest.all fun c => isAllowed c || c == '-' || c == '.'

/-- Whether a name is legal for messages, enums and fields, and as a part of a package. -/
def isLegal (name : String) : Bool :=
  match name.toList with
  | [] => false
  | c :: rest => !c.isDigit && (c :: rest).all isAllowed

def opensWithLetter (name : String) : Bool :=
  (name.toList.find? fun c => !isSeparator c).any Char.isAlpha

def startsLow (name : String) : Bool := name.toList.head?.any Char.isLower

/-!
## Characters
-/

theorem isAllowed_of_isAlphanum {c : Char} (h : c.isAlphanum = true) : isAllowed c = true := by
  rw [isAllowed, h, Bool.true_or]

theorem isDigit_eq_false_of_isAlpha {c : Char} (h : c.isAlpha = true) : c.isDigit = false := by
  rw [← Bool.not_eq_true]
  simp only [Char.isAlpha, Char.isUpper, Char.isLower, Char.isDigit, Bool.or_eq_true,
    Bool.and_eq_true, decide_eq_true_eq, ge_iff_le, UInt32.le_iff_toNat_le] at h ⊢
  change (65 ≤ c.toNat ∧ c.toNat ≤ 90) ∨ (97 ≤ c.toNat ∧ c.toNat ≤ 122) at h
  change ¬ (48 ≤ c.toNat ∧ c.toNat ≤ 57)
  omega

theorem isAlphanum_toUpper (c : Char) : c.toUpper.isAlphanum = c.isAlphanum := by
  by_cases h : c.isLower = true
  · have halpha : c.isAlpha = true := by rw [Char.isAlpha, h, Bool.or_true]
    simp [Char.isAlphanum, halpha]
  · rw [Char.toUpper_eq_of_not_isLower h]

theorem isAlphanum_of_schema {c : Char} (h : isAllowed c = true ∨ c = '-' ∨ c = '.')
    (hsep : isSeparator c = false) : c.isAlphanum = true := by
  rcases h with h | rfl | rfl
  · rw [isAllowed, Bool.or_eq_true, beq_iff_eq] at h
    rcases h with h | rfl
    · exact h
    · exact absurd hsep (by decide)
  · exact absurd hsep (by decide)
  · exact absurd hsep (by decide)

theorem isSchemaName_iff : isSchemaName name = true ↔
    (∃ c, name.toList.head? = some c ∧ (c.isAlpha = true ∨ c = '_')) ∧
      ∀ c ∈ name.toList, isAllowed c = true ∨ c = '-' ∨ c = '.' := by
  rw [isSchemaName]
  cases name.toList with
  | nil => simp
  | cons c rest =>
      have hfirst : c.isAlpha = true ∨ c = '_' → isAllowed c = true := by
        rintro (h | rfl)
        · exact isAllowed_of_isAlphanum (by rw [Char.isAlphanum, h, Bool.true_or])
        · decide
      simp only [Bool.and_eq_true, Bool.or_eq_true, beq_iff_eq, List.all_eq_true, List.head?_cons,
        Option.some.injEq, exists_eq_left', List.forall_mem_cons, or_assoc]
      exact and_congr_right fun h => ⟨fun hrest => ⟨Or.inl (hfirst h), hrest⟩, And.right⟩

theorem isLegal_iff : isLegal name = true ↔
    (∃ c, name.toList.head? = some c ∧ c.isDigit = false) ∧
      ∀ c ∈ name.toList, isAllowed c = true := by
  rw [isLegal]
  cases name.toList with
  | nil => simp
  | cons c rest => simp

/-!
## Sanitized names
-/

/-- The character, or an underscore for one that an identifier may not hold. -/
def allowed (c : Char) : Char := if isAllowed c then c else '_'

theorem isAllowed_allowed (c : Char) : isAllowed (allowed c) = true := by
  rw [allowed]
  split
  · assumption
  · decide

theorem toList_sanitize (name : String) : (sanitize name).toList = name.toList.map allowed :=
  String.toList_map

theorem isAllowed_of_mem_sanitize {c : Char} (h : c ∈ (sanitize name).toList) :
    isAllowed c = true := by
  rw [toList_sanitize] at h
  obtain ⟨c, _, rfl⟩ := List.mem_map.1 h
  exact isAllowed_allowed c

theorem isDigit_allowed (c : Char) : (allowed c).isDigit = c.isDigit := by
  rw [allowed]
  split
  · rfl
  · rename_i h
    cases hdigit : c.isDigit with
    | false => rfl
    | true => exact absurd (isAllowed_of_isAlphanum (by simp [Char.isAlphanum, hdigit])) h

/-- Sanitized schema names are legal. -/
theorem isLegal_sanitize (h : isSchemaName name = true) : isLegal (sanitize name) = true := by
  obtain ⟨⟨c, hhead, hc⟩, _⟩ := isSchemaName_iff.1 h
  refine isLegal_iff.2 ⟨⟨allowed c, by rw [toList_sanitize, List.head?_map, hhead]; rfl, ?_⟩,
    fun _ => isAllowed_of_mem_sanitize⟩
  rw [isDigit_allowed]
  rcases hc with hc | rfl
  · exact isDigit_eq_false_of_isAlpha hc
  · decide

theorem startsLow_sanitize (h : startsLow name = true) : startsLow (sanitize name) = true := by
  rw [startsLow, Option.any_eq_true] at h ⊢
  obtain ⟨c, hhead, hc⟩ := h
  have halphanum : c.isAlphanum = true := by simp [Char.isAlphanum, Char.isAlpha, hc]
  refine ⟨c, ?_, hc⟩
  rw [toList_sanitize, List.head?_map, hhead, Option.map_some, allowed,
    if_pos (isAllowed_of_isAlphanum halphanum)]

/-!
## Names out of words
-/

theorem toList_pascalCase (name : String) :
    (pascalCase name).toList = (capitalize true name.toList).map allowed := by
  rw [pascalCase, toList_sanitize, String.toList_ofList]

theorem head?_capitalize (text : List Char) : (capitalize true text).head? =
    (text.find? fun c => !isSeparator c).map Char.toUpper := by
  induction text with
  | nil => rfl
  | cons c rest ih =>
      rw [capitalize]
      by_cases h : isSeparator c = true
      · rw [if_pos h, ih, List.find?_cons_of_neg (by simp [h])]
      · rw [if_neg h, List.find?_cons_of_pos (by simpa using h)]
        rfl

/-- The characters of capitalized words are those of the words, some in upper case. -/
theorem of_mem_capitalize {atStart : Bool} {text : List Char} {c : Char}
    (h : c ∈ capitalize atStart text) :
    ∃ d ∈ text, isSeparator d = false ∧ (c = d ∨ c = d.toUpper) := by
  induction text generalizing atStart with
  | nil => exact absurd h List.not_mem_nil
  | cons d rest ih =>
      have hlater : ∀ {start : Bool}, c ∈ capitalize start rest →
          ∃ d' ∈ d :: rest, isSeparator d' = false ∧ (c = d' ∨ c = d'.toUpper) := fun hmem => by
        obtain ⟨d', hd', hcase⟩ := ih hmem
        exact ⟨d', List.mem_cons_of_mem _ hd', hcase⟩
      rw [capitalize] at h
      by_cases hsep : isSeparator d = true
      · rw [if_pos hsep] at h
        exact hlater h
      · rw [if_neg hsep] at h
        rcases List.mem_cons.1 h with rfl | h
        · refine ⟨d, List.mem_cons_self, by simpa using hsep, ?_⟩
          cases atStart with
          | true => exact Or.inr rfl
          | false => exact Or.inl rfl
        · exact hlater h

/-- The words of a schema name are made of letters and digits. -/
theorem isAlphanum_of_mem_capitalize (h : isSchemaName name = true) {c : Char}
    (hc : c ∈ capitalize true name.toList) : c.isAlphanum = true := by
  obtain ⟨d, hd, hsep, hcase⟩ := of_mem_capitalize hc
  have halphanum := isAlphanum_of_schema ((isSchemaName_iff.1 h).2 d hd) hsep
  rcases hcase with rfl | rfl
  · exact halphanum
  · rw [isAlphanum_toUpper, halphanum]

theorem underscore_notMem_pascalCase (h : isSchemaName name = true) :
    '_' ∉ (pascalCase name).toList := by
  rw [toList_pascalCase, List.mem_map]
  rintro ⟨c, hc, hallowed⟩
  have halphanum := isAlphanum_of_mem_capitalize h hc
  rw [allowed, if_pos (isAllowed_of_isAlphanum halphanum)] at hallowed
  subst hallowed
  exact absurd halphanum (by decide)

/-- The words of a schema name make a legal identifier exactly if the first one starts with a
letter. -/
theorem isLegal_pascalCase_iff (h : isSchemaName name = true) :
    isLegal (pascalCase name) = true ↔ opensWithLetter name = true := by
  have hall : ∀ c ∈ (pascalCase name).toList, isAllowed c = true :=
    fun _ => isAllowed_of_mem_sanitize
  rw [isLegal_iff, and_iff_left hall, opensWithLetter, toList_pascalCase, List.head?_map,
    head?_capitalize, Option.map_map, Option.any_eq_true]
  constructor
  · rintro ⟨first, hfirst, hdigit⟩
    obtain ⟨c, hfind, rfl⟩ := Option.map_eq_some_iff.1 hfirst
    refine ⟨c, hfind, ?_⟩
    have hsep : isSeparator c = false := by simpa using List.find?_some hfind
    have hschema := (isSchemaName_iff.1 h).2 c (List.mem_of_find?_eq_some hfind)
    have halphanum := isAlphanum_of_schema hschema hsep
    rw [Function.comp_apply, isDigit_allowed] at hdigit
    rw [Char.isAlphanum, Bool.or_eq_true] at halphanum
    refine halphanum.resolve_right fun hc => ?_
    -- a digit has no upper case
    have hupper : c.toUpper = c := Char.toUpper_eq_of_not_isLower fun hlow => by
      have halpha : c.isAlpha = true := by rw [Char.isAlpha, hlow, Bool.or_true]
      rw [isDigit_eq_false_of_isAlpha halpha] at hc
      cases hc
    rw [hupper, hc] at hdigit
    cases hdigit
  · rintro ⟨c, hfind, halpha⟩
    refine ⟨_, by rw [hfind]; rfl, ?_⟩
    rw [Function.comp_apply, isDigit_allowed]
    exact isDigit_eq_false_of_isAlpha (by rw [Char.isAlpha_toUpper_eq_isAlpha, halpha])

theorem startsLow_pascalCase (name : String) : startsLow (pascalCase name) = false := by
  rw [startsLow, toList_pascalCase, List.head?_map, head?_capitalize, Option.map_map]
  cases name.toList.find? fun c => !isSeparator c with
  | none => rfl
  | some c =>
      rw [Option.map_some, Option.any_some, Function.comp_apply, allowed]
      split
      · exact Char.isLower_toUpper_eq_false c
      · rfl

/-!
## Suffixes
-/

theorem toList_numbered (name : String) (n : Nat) :
    (numbered name n).toList = name.toList ++ '_' :: Nat.toDigits 10 n := by
  change (name ++ "_" ++ Nat.repr n).toList = _
  simp [Nat.repr]

theorem numbered_eq_append (name : String) (n : Nat) :
    numbered name n = name ++ ("_" ++ Nat.repr n) := String.append_assoc

theorem numbered_ne_self (name : String) (n : Nat) : numbered name n ≠ name := by
  intro h
  have hlength := congrArg (fun text => text.toList.length) h
  rw [toList_numbered, List.length_append, List.length_cons] at hlength
  omega

theorem isAllowed_of_mem_suffix {n : Nat} {c : Char} (h : c ∈ '_' :: Nat.toDigits 10 n) :
    isAllowed c = true := by
  rcases List.mem_cons.1 h with rfl | h
  · decide
  · have hdigit := Nat.isDigit_of_mem_toDigits (by decide) (by decide) h
    exact isAllowed_of_isAlphanum (by simp [Char.isAlphanum, hdigit])

/-- A suffix keeps a name that is not empty as legal or illegal as it is. -/
theorem isLegal_append {suffix : String} (hne : name ≠ "")
    (h : ∀ c ∈ suffix.toList, isAllowed c = true) :
    isLegal (name ++ suffix) = true ↔ isLegal name = true := by
  have hcons : ∃ c rest, name.toList = c :: rest := by
    cases hname : name.toList with
    | nil => exact absurd (String.toList_eq_nil_iff.1 hname) hne
    | cons c rest => exact ⟨c, rest, rfl⟩
  obtain ⟨c, rest, hname⟩ := hcons
  rw [isLegal_iff, isLegal_iff, String.toList_append, hname]
  refine and_congr Iff.rfl ⟨fun hall d hd => hall d (List.mem_append_left _ hd), ?_⟩
  exact fun hall d hd => (List.mem_append.1 hd).elim (hall d) (h d)

theorem isLegal_numbered_iff (hne : name ≠ "") (n : Nat) :
    isLegal (numbered name n) = true ↔ isLegal name = true := by
  rw [numbered_eq_append, isLegal_append hne]
  intro c hc
  refine isAllowed_of_mem_suffix (n := n) ?_
  simpa [Nat.repr] using hc

theorem startsLow_append {suffix : String} (h : startsLow name = false)
    (hsuffix : startsLow suffix = false) : startsLow (name ++ suffix) = false := by
  rw [startsLow] at h hsuffix ⊢
  rw [String.toList_append, List.head?_append]
  cases hname : name.toList.head? with
  | none => exact hsuffix
  | some c => rwa [hname] at h

theorem startsLow_underscore_append (rest : String) : startsLow ("_" ++ rest) = false := by
  rw [startsLow, String.toList_append]
  rfl

theorem startsLow_numbered (h : startsLow name = false) (n : Nat) :
    startsLow (numbered name n) = false := by
  rw [numbered_eq_append]
  exact startsLow_append h (startsLow_underscore_append _)

/-- The name is a candidate or has a numeric suffix. -/
inductive MadeFrom (candidate : String) : String → Prop where
  | self : MadeFrom candidate candidate
  | numbered (n : Nat) : MadeFrom candidate (numbered candidate n)

variable {candidate : String}

theorem isAllowed_of_madeFrom (h : ∀ c ∈ candidate.toList, isAllowed c = true)
    (hmade : MadeFrom candidate name) : ∀ c ∈ name.toList, isAllowed c = true := by
  cases hmade with
  | self => exact h
  | numbered n =>
      intro c hc
      rw [toList_numbered] at hc
      exact (List.mem_append.1 hc).elim (h c) isAllowed_of_mem_suffix

theorem isLegal_of_madeFrom (h : MadeFrom candidate name) (hlegal : isLegal candidate = true) :
    isLegal name = true := by
  cases h with
  | self => exact hlegal
  | numbered n =>
      refine (isLegal_numbered_iff ?_ n).2 hlegal
      rintro rfl
      cases hlegal

/-- An illegal candidate makes illegal names, but for the empty one with a suffix. -/
theorem MadeFrom.isLegal_iff (h : MadeFrom candidate name) (hne : candidate ≠ "") :
    isLegal name = true ↔ isLegal candidate = true := by
  cases h with
  | self => rfl
  | numbered n => exact isLegal_numbered_iff hne n

theorem startsLow_of_madeFrom (h : MadeFrom candidate name) (hlow : startsLow candidate = false) :
    startsLow name = false := by
  cases h with
  | self => exact hlow
  | numbered n => exact startsLow_numbered hlow n

theorem MadeFrom.startsLow (h : MadeFrom candidate name) (hlow : startsLow candidate = true) :
    startsLow name = true := by
  cases h with
  | self => exact hlow
  | numbered n =>
      rw [Identifier.startsLow, Option.any_eq_true] at hlow ⊢
      obtain ⟨c, hhead, hc⟩ := hlow
      exact ⟨c, by rw [toList_numbered, List.head?_append, hhead, Option.some_or], hc⟩

end Identifier

namespace NameSet

open Identifier

theorem madeFrom_firstFree (used : NameSet) (candidate : String) :
    MadeFrom candidate (used.firstFree candidate) := by
  cases hused : used.contains candidate with
  | false =>
      rw [firstFree_of_free hused]
      exact .self
  | true =>
      obtain ⟨n, _, hname, _⟩ := exists_firstFree_eq_numbered hused
      rw [hname]
      exact .numbered n

/-- Names that are claimed in turn are made from their candidates. -/
theorem forall₂_claimAll (used : NameSet) (candidates : List String) :
    List.Forall₂ MadeFrom candidates (used.claimAll candidates) := by
  induction candidates generalizing used with
  | nil => exact .nil
  | cons candidate rest ih => exact .cons (used.madeFrom_firstFree candidate) (ih _)

/-- Each candidate is itself among the names once it has been claimed. -/
theorem mem_claimAll_of_mem {used : NameSet} {candidates : List String} {candidate : String}
    (h : candidate ∈ candidates) :
    used.contains candidate = true ∨ candidate ∈ used.claimAll candidates := by
  induction candidates generalizing used with
  | nil => exact absurd h List.not_mem_nil
  | cons first rest ih =>
      rw [claimAll_cons]
      rcases List.mem_cons.1 h with rfl | h
      · cases hused : used.contains candidate with
        | true => exact Or.inl rfl
        | false =>
            rw [firstFree_of_free hused]
            exact Or.inr List.mem_cons_self
      · have hrest : (used.add (used.firstFree first)).contains candidate = true ∨
            candidate ∈ (used.add (used.firstFree first)).claimAll rest := ih h
        rcases hrest with hused | hmem
        · rw [contains_add, Bool.or_eq_true, decide_eq_true_iff] at hused
          rcases hused with rfl | hused
          · exact Or.inr List.mem_cons_self
          · exact Or.inl hused
        · exact Or.inr (List.mem_cons_of_mem _ hmem)

end NameSet

end YangToProto

import YangToProto.Proofs.Proto.LegalNames
import YangToProto.Proofs.Text.Segments
import YangToProto.Proto.Text

/-!
# Names of enum values

A value is named for its enum and its symbol. Where enums are named after words without underscores,
values of two enums share a name only if one enum has the other's name with a suffix, and the symbol
of the other makes up for the suffix (`EnumTable.valueName_eq_iff`). In the same way the name of a
value may be that of an enum (`EnumTable.valueName_eq_enum_iff`).
-/

namespace YangToProto

open Identifier

namespace Identifier

def startsWithDigit (name : String) : Bool := name.toList.head?.any Char.isDigit

theorem startsWithDigit_repr_append (n : Nat) (rest : String) :
    startsWithDigit (Nat.repr n ++ rest) = true := by
  have hchars : (Nat.repr n ++ rest).toList = Nat.toDigits 10 n ++ rest.toList := by
    simp [Nat.repr]
  rw [startsWithDigit, hchars, List.head?_append]
  cases hdigits : Nat.toDigits 10 n with
  | nil => exact absurd hdigits Nat.toDigits_ne_nil
  | cons c more =>
      have hmem : c ∈ Nat.toDigits 10 n := hdigits ▸ List.mem_cons_self
      exact Nat.isDigit_of_mem_toDigits (by decide) (by decide) hmem

theorem ne_repr_append {name : String} (h : startsWithDigit name = false) (n : Nat)
    (rest : String) : name ≠ Nat.repr n ++ rest := by
  rintro rfl
  rw [startsWithDigit_repr_append] at h
  cases h

/-- The name is made from a word without underscores. -/
def FromWord (name : String) : Prop := ∃ word, '_' ∉ word.toList ∧ MadeFrom word name

end Identifier

namespace EnumTable

def valueName (enumName symbol : String) : String := s!"{enumName}_{symbol}"

def symbols (values : EnumTable) : List String := SortedMap.values values

/-- The lines of an enum show the names of its values. -/
theorem render_eq (indent enumName : String) (values : EnumTable) :
    values.render indent enumName = String.join (values.entries.map fun entry =>
      s!"{indent}{valueName enumName entry.2} = {entry.1};\n") := by
  rw [render]
  refine congrArg String.join (List.map_congr_left fun entry _ => ?_)
  change indent ++ enumName ++ "_" ++ entry.2 ++ " = " ++ toString entry.1 ++ ";\n" =
    indent ++ (enumName ++ "_" ++ entry.2) ++ " = " ++ toString entry.1 ++ ";\n"
  rw [← String.append_assoc, ← String.append_assoc]

variable {enumName other symbol symbol' : String}

theorem valueName_eq_append (enumName symbol : String) :
    valueName enumName symbol = enumName ++ ("_" ++ symbol) := String.append_assoc

theorem toList_valueName (enumName symbol : String) :
    (valueName enumName symbol).toList = enumName.toList ++ '_' :: symbol.toList := by
  rw [valueName_eq_append, String.toList_append, String.toList_append]
  rfl

theorem valueName_numbered (word : String) (n : Nat) (symbol : String) :
    valueName (numbered word n) symbol = valueName word (valueName (Nat.repr n) symbol) := by
  simp only [valueName_eq_append, numbered_eq_append, String.append_assoc]

/-- Values of different enums have one name exactly if one enum has the name of the other with a
suffix and a symbol of the other starts with that suffix. -/
theorem valueName_eq_iff (hword : FromWord enumName) (hword' : FromWord other)
    (hne : enumName ≠ other) :
    valueName enumName symbol = valueName other symbol' ↔
      (∃ n, other = numbered enumName n ∧ symbol = valueName (Nat.repr n) symbol') ∨
        ∃ n, enumName = numbered other n ∧ symbol' = valueName (Nat.repr n) symbol := by
  constructor
  · intro h
    obtain ⟨word, hplain, hmade⟩ := hword
    obtain ⟨word', hplain', hmade'⟩ := hword'
    have hsame : ∀ {left right : String}, valueName word left = valueName word' right →
        word = word' ∧ left = right := by
      intro left right heq
      have hchars := congrArg String.toList heq
      rw [toList_valueName, toList_valueName] at hchars
      obtain ⟨hwords, hrest⟩ := Segments.eq_of_append_cons hplain hplain' hchars
      exact ⟨String.toList_inj.1 hwords, String.toList_inj.1 hrest⟩
    cases hmade with
    | self =>
        cases hmade' with
        | self => exact absurd (hsame h).1 hne
        | numbered n =>
            rw [valueName_numbered] at h
            obtain ⟨rfl, hsymbol⟩ := hsame h
            exact Or.inl ⟨n, rfl, hsymbol⟩
    | numbered m =>
        rw [valueName_numbered] at h
        cases hmade' with
        | self =>
            obtain ⟨rfl, hsymbol⟩ := hsame h
            exact Or.inr ⟨m, rfl, hsymbol.symm⟩
        | numbered n =>
            rw [valueName_numbered] at h
            obtain ⟨rfl, hsymbol⟩ := hsame h
            -- the suffixes end at the same underscore
            have hchars := congrArg String.toList hsymbol
            rw [toList_valueName, toList_valueName] at hchars
            have hdigits : ∀ k, '_' ∉ (Nat.repr k).toList := fun k => by simp
            obtain ⟨hsuffix, _⟩ := Segments.eq_of_append_cons (hdigits m) (hdigits n) hchars
            refine absurd ?_ hne
            change word ++ "_" ++ Nat.repr m = word ++ "_" ++ Nat.repr n
            rw [String.toList_inj.1 hsuffix]
  · rintro (⟨n, rfl, rfl⟩ | ⟨n, rfl, rfl⟩)
    · exact (valueName_numbered _ _ _).symm
    · exact valueName_numbered _ _ _

/-- A value has the name of an enum exactly if the enum has the name of the value's enum with a
suffix, and the suffix is the symbol. -/
theorem valueName_eq_enum_iff (hword : FromWord enumName) (hword' : FromWord other) :
    valueName enumName symbol = other ↔
      ∃ n, other = numbered enumName n ∧ symbol = Nat.repr n := by
  constructor
  · intro h
    obtain ⟨word', hplain', hmade'⟩ := hword'
    cases hmade' with
    | self =>
        refine absurd ?_ hplain'
        rw [← h, toList_valueName]
        exact List.mem_append_right _ List.mem_cons_self
    | numbered n =>
        obtain ⟨word, hplain, hmade⟩ := hword
        have hchars := congrArg String.toList h
        rw [toList_valueName, toList_numbered] at hchars
        cases hmade with
        | self =>
            obtain ⟨hwords, hrest⟩ := Segments.eq_of_append_cons hplain hplain' hchars
            refine ⟨n, by rw [String.toList_inj.1 hwords], String.toList_inj.1 ?_⟩
            simpa [Nat.repr] using hrest
        | numbered m =>
            rw [toList_numbered, List.append_assoc, List.cons_append] at hchars
            obtain ⟨_, hrest⟩ := Segments.eq_of_append_cons hplain hplain' hchars
            have hmem : '_' ∈ Nat.toDigits 10 n :=
              hrest ▸ List.mem_append_right _ List.mem_cons_self
            exact absurd hmem Nat.underscore_not_in_toDigits
  · rintro ⟨n, rfl, rfl⟩
    rfl

end EnumTable

end YangToProto

import YangToProto.Generation.EnumValues
import YangToProto.Proofs.Collection.Entries

/-!
# Numbers of enumeration members

The default of an enumeration takes 0 and every other member the number above its ordinal. Members
are placed one by one into a table that starts with the entry of 0. Each of them needs a number that
fits an enum value and is still free (`EnumMember.Placeable`); a table that is reached holds what it
started with and one entry for each member placed (`EnumMember.perm_addAll`), and where no table is
reached the fault is that of the first member that cannot be placed
(`EnumMember.of_addAll_eq_error`). `LeafType.numbers_of_enumeration` puts this together.
-/

namespace YangToProto

namespace EnumMember

def number (member : EnumMember) : Int := member.value.toInt + 1

def symbol (member : EnumMember) : String := Identifier.sanitize member.name

def entry (member : EnumMember) : Int × String := (member.number, member.symbol)

/-- The member's number fits the 32 signed bits of an enum value. -/
def Fits (member : EnumMember) : Prop :=
  Int32.minValue.toInt ≤ member.number ∧ member.number ≤ Int32.maxValue.toInt

def besides (default : Option String) (members : List EnumMember) : List EnumMember :=
  members.filter fun member => default != some member.name

def zeroSymbol (default : Option String) : String :=
  (default.map Identifier.sanitize).getD unsetSymbol

def clash (path taken : String) (member : EnumMember) : GenerationError :=
  .unimplemented
    s!"enumeration {path} maps both {taken} and {member.symbol} to value {member.number}"

theorem fitsEnumValue_number_iff {member : EnumMember} :
    fitsEnumValue member.number = true ↔ member.Fits := by
  have hleast : Int32.minValue.toInt = -2147483648 := rfl
  have hgreatest : Int32.maxValue.toInt = 2147483647 := rfl
  rw [fitsEnumValue, Fits, Bool.and_eq_true, decide_eq_true_iff, decide_eq_true_iff, hleast,
    hgreatest]

/-!
## Placing members
-/

/-- The members can be placed into the table one after the other. -/
structure Placeable (table : EnumTable) (members : List EnumMember) : Prop where
  fits : ∀ member ∈ members, member.Fits
  free : ∀ member ∈ members, table.find? member.number = none
  distinct : (members.map number).Nodup

variable {path : String} {table result : EnumTable} {member : EnumMember}
  {members rest : List EnumMember}

theorem placeable_nil (table : EnumTable) : Placeable table [] :=
  ⟨fun _ hmem => absurd hmem List.not_mem_nil, fun _ hmem => absurd hmem List.not_mem_nil, .nil⟩

/-- The members behind the first one find its number taken as well. -/
theorem placeable_cons_iff :
    Placeable table (member :: rest) ↔
      member.Fits ∧ table.find? member.number = none ∧
        Placeable (table.insert member.number member.symbol) rest := by
  constructor
  · rintro ⟨hfits, hfree, hdistinct⟩
    obtain ⟨hnew, hrest⟩ := List.nodup_cons.1 hdistinct
    refine ⟨hfits _ List.mem_cons_self, hfree _ List.mem_cons_self,
      fun other ho => hfits other (List.mem_cons_of_mem _ ho), fun other ho => ?_, hrest⟩
    have hne : other.number ≠ member.number := fun heq => hnew (heq ▸ List.mem_map_of_mem ho)
    rw [SortedMap.find?_insert_ne table _ hne]
    exact hfree other (List.mem_cons_of_mem _ ho)
  · rintro ⟨hfirst, hfree, hrest⟩
    have hne : ∀ other ∈ rest, other.number ≠ member.number := by
      intro other ho heq
      have htaken := hrest.free other ho
      rw [heq, SortedMap.find?_insert_self] at htaken
      cases htaken
    refine ⟨List.forall_mem_cons.2 ⟨hfirst, hrest.fits⟩,
      List.forall_mem_cons.2 ⟨hfree, fun other ho => ?_⟩,
      List.nodup_cons.2 ⟨fun hmem => ?_, hrest.distinct⟩⟩
    · rw [← SortedMap.find?_insert_ne table _ (hne other ho)]
      exact hrest.free other ho
    · obtain ⟨other, ho, heq⟩ := List.mem_map.1 hmem
      exact hne other ho heq

theorem addAll_cons_of_free (hfits : member.Fits) (hfree : table.find? member.number = none) :
    addAll path none table (member :: rest) =
      addAll path none (table.insert member.number member.symbol) rest := by
  have hfits' := fitsEnumValue_number_iff.2 hfits
  rw [number] at hfits' hfree
  simp [addAll, hfits', hfree, number, symbol]

theorem addAll_cons_of_taken (hfits : member.Fits) {taken : String}
    (htaken : table.find? member.number = some taken) :
    addAll path none table (member :: rest) = .error (clash path taken member) := by
  have hfits' := fitsEnumValue_number_iff.2 hfits
  rw [number] at hfits' htaken
  simp [addAll, hfits', htaken, number, symbol, clash]

theorem addAll_cons_of_not_fits (hfits : ¬ member.Fits) :
    addAll path none table (member :: rest) =
      .error (.enumValueRange path member.name member.value.toInt) := by
  have hfits' := mt fitsEnumValue_number_iff.1 hfits
  rw [number] at hfits'
  simp [addAll, hfits']

/-- The default is passed over, so the other members decide. -/
theorem addAll_eq_besides (path : String) (default : Option String) (table : EnumTable)
    (members : List EnumMember) :
    addAll path default table members = addAll path none table (besides default members) := by
  induction members generalizing table with
  | nil => rfl
  | cons member rest ih =>
      by_cases hdefault : (default == some member.name) = true
      · rw [besides, List.filter_cons_of_neg (by simp [bne, hdefault]), addAll, if_pos hdefault]
        exact ih table
      · rw [besides, List.filter_cons_of_pos (by simp [bne, hdefault])]
        simp only [addAll, hdefault, ih]
        rfl

/-- Exactly members that can be placed lead to a table. -/
theorem exists_addAll_iff :
    (∃ result, addAll path none table members = .ok result) ↔ Placeable table members := by
  induction members generalizing table with
  | nil => exact ⟨fun _ => placeable_nil table, fun _ => ⟨table, rfl⟩⟩
  | cons member rest ih =>
      rw [placeable_cons_iff]
      by_cases hfits : member.Fits
      · cases hfind : table.find? member.number with
        | none => simp [addAll_cons_of_free hfits hfind, ih, hfits]
        | some taken => simp [addAll_cons_of_taken hfits hfind]
      · simp [addAll_cons_of_not_fits hfits, hfits]

/-- The table that is reached has one more entry for each member. -/
theorem perm_addAll (h : addAll path none table members = .ok result) :
    result.entries.Perm (members.map entry ++ table.entries) := by
  induction members generalizing table with
  | nil =>
      cases h
      exact List.Perm.refl _
  | cons member rest ih =>
      obtain ⟨hfits, hfree, _⟩ := placeable_cons_iff.1 (exists_addAll_iff.1 ⟨result, h⟩)
      rw [addAll_cons_of_free hfits hfree] at h
      refine (ih h).trans ?_
      refine ((SortedMap.perm_insert hfree member.symbol).append_left _).trans ?_
      exact List.perm_middle

/-- The first member that cannot be placed is at fault. -/
theorem of_addAll_eq_error {error : GenerationError}
    (h : addAll path none table members = .error error) :
    ∃ front member back, members = front ++ member :: back ∧ Placeable table front ∧
      ((¬ member.Fits ∧ error = .enumValueRange path member.name member.value.toInt) ∨
        member.Fits ∧ ∃ taken, error = clash path taken member ∧
          (table.find? member.number = some taken ∨
            ∃ other ∈ front, other.entry = (member.number, taken))) := by
  induction members generalizing table with
  | nil => cases h
  | cons member rest ih =>
      by_cases hfits : member.Fits
      · cases hfind : table.find? member.number with
        | none =>
            rw [addAll_cons_of_free hfits hfind] at h
            obtain ⟨front, faulty, back, rfl, hfront, hfault⟩ := ih h
            refine ⟨member :: front, faulty, back, rfl,
              placeable_cons_iff.2 ⟨hfits, hfind, hfront⟩, hfault.imp_right ?_⟩
            rintro ⟨hfits', taken, herror, htaken⟩
            refine ⟨hfits', taken, herror, ?_⟩
            rcases htaken with htaken | ⟨other, ho, hentry⟩
            · rw [SortedMap.find?_insert] at htaken
              split at htaken
              · rename_i hsame
                cases htaken
                exact Or.inr ⟨member, List.mem_cons_self, by rw [entry, hsame]⟩
              · exact Or.inl htaken
            · exact Or.inr ⟨other, List.mem_cons_of_mem _ ho, hentry⟩
        | some taken =>
            rw [addAll_cons_of_taken hfits hfind] at h
            cases h
            exact ⟨[], member, rest, rfl, placeable_nil table,
              Or.inr ⟨hfits, taken, rfl, Or.inl hfind⟩⟩
      · rw [addAll_cons_of_not_fits hfits] at h
        cases h
        exact ⟨[], member, rest, rfl, placeable_nil table, Or.inl ⟨hfits, rfl⟩⟩

/-!
## Tables of enumerations
-/

/-- Each member has a number of its own, which fits an enum value and is not 0. -/
structure Numbered (members : List EnumMember) : Prop where
  fits : ∀ member ∈ members, member.Fits
  nonzero : ∀ member ∈ members, member.number ≠ 0
  distinct : (members.map number).Nodup

/-- The default, if there is one, is the name of a member. -/
def Declares (members : List EnumMember) (default : Option String) : Prop :=
  ∀ name, default = some name → ∃ member ∈ members, member.name = name

def zeroTable (default : Option String) : EnumTable :=
  SortedMap.empty.insert 0 (zeroSymbol default)

variable {default : Option String}

theorem find?_zeroTable (default : Option String) (number : Int) :
    (zeroTable default).find? number = if number = 0 then some (zeroSymbol default) else none :=
  SortedMap.find?_insert _ _ _ _

theorem placeable_zeroTable_iff : Placeable (zeroTable default) members ↔ Numbered members := by
  have hfree : ∀ member : EnumMember,
      (zeroTable default).find? member.number = none ↔ member.number ≠ 0 := by
    intro member
    rw [find?_zeroTable]
    split <;> simp_all
  constructor
  · rintro ⟨hfits, hnone, hdistinct⟩
    exact ⟨hfits, fun member hm => (hfree member).1 (hnone member hm), hdistinct⟩
  · rintro ⟨hfits, hnonzero, hdistinct⟩
    exact ⟨hfits, fun member hm => (hfree member).2 (hnonzero member hm), hdistinct⟩

theorem enumerationTable_of_declares (h : Declares members default) :
    enumerationTable path members default =
      addAll path none (zeroTable default) (besides default members) := by
  rw [← addAll_eq_besides]
  cases default with
  | none => rfl
  | some name =>
      have hany : members.any (fun member => member.name == name) = true := by
        obtain ⟨member, hmem, hname⟩ := h name rfl
        exact List.any_eq_true.2 ⟨member, hmem, beq_iff_eq.2 hname⟩
      rw [enumerationTable, if_pos hany]
      rfl

theorem enumerationTable_of_unknown {unknown : String}
    (h : ∀ member ∈ members, member.name ≠ unknown) :
    enumerationTable path members (some unknown) = .error (.invalidDefault path unknown) := by
  have hany : ¬ members.any (fun member => member.name == unknown) = true := by
    rw [List.any_eq_true]
    rintro ⟨member, hmem, hname⟩
    exact h member hmem (beq_iff_eq.1 hname)
  rw [enumerationTable, if_neg hany]

/-- The default is the name of a member or of none. -/
theorem declares_or_unknown (members : List EnumMember) (default : Option String) :
    Declares members default ∨
      ∃ unknown, default = some unknown ∧ ∀ member ∈ members, member.name ≠ unknown := by
  cases default with
  | none => exact Or.inl fun _ h => nomatch h
  | some name =>
      by_cases h : ∃ member ∈ members, member.name = name
      · exact Or.inl fun _ heq => Option.some.inj heq ▸ h
      · exact Or.inr ⟨name, rfl, fun member hmem hname => h ⟨member, hmem, hname⟩⟩

theorem exists_enumerationTable_iff :
    (∃ table, enumerationTable path members default = .ok table) ↔
      Declares members default ∧ Numbered (besides default members) := by
  rcases declares_or_unknown members default with hdeclares | ⟨unknown, rfl, hunknown⟩
  · rw [enumerationTable_of_declares hdeclares, exists_addAll_iff, placeable_zeroTable_iff]
    exact (and_iff_right hdeclares).symm
  · rw [enumerationTable_of_unknown hunknown]
    constructor
    · rintro ⟨table, htable⟩
      cases htable
    · rintro ⟨hdeclares, _⟩
      obtain ⟨member, hmem, hname⟩ := hdeclares unknown rfl
      exact absurd hname (hunknown member hmem)

/-- The table of an enumeration has the entry of 0 and one for each member but the default. -/
theorem perm_enumerationTable (h : enumerationTable path members default = .ok table) :
    table.entries.Perm ((0, zeroSymbol default) :: (besides default members).map entry) := by
  have hdeclares := (exists_enumerationTable_iff.1 ⟨table, h⟩).1
  rw [enumerationTable_of_declares hdeclares] at h
  exact (perm_addAll h).trans (List.perm_append_singleton _ _)

theorem Declares.of_perm {reordered : List EnumMember} (hperm : members.Perm reordered)
    (h : Declares members default) : Declares reordered default := by
  intro name hname
  obtain ⟨member, hmem, hsame⟩ := h name hname
  exact ⟨member, hperm.mem_iff.1 hmem, hsame⟩

theorem Numbered.of_perm {reordered : List EnumMember} (hperm : members.Perm reordered)
    (h : Numbered members) : Numbered reordered where
  fits member hmem := h.fits member (hperm.mem_iff.2 hmem)
  nonzero member hmem := h.nonzero member (hperm.mem_iff.2 hmem)
  distinct := (hperm.map number).nodup_iff.1 h.distinct

/-- The order in which members are declared does not matter to the table. -/
theorem enumerationTable_of_perm {reordered : List EnumMember} (hperm : members.Perm reordered)
    (h : enumerationTable path members default = .ok table) :
    enumerationTable path reordered default = .ok table := by
  have hbesides : (besides default members).Perm (besides default reordered) := hperm.filter _
  obtain ⟨hdeclares, hnumbered⟩ := exists_enumerationTable_iff.1 ⟨table, h⟩
  obtain ⟨other, hother⟩ : ∃ other, enumerationTable path reordered default = .ok other :=
    exists_enumerationTable_iff.2 ⟨hdeclares.of_perm hperm, hnumbered.of_perm hbesides⟩
  have hentries := (perm_enumerationTable h).trans
    (((hbesides.map entry).cons _).trans (perm_enumerationTable hother).symm)
  rw [hother, SortedMap.eq_of_perm hentries]

theorem of_enumerationTable_eq_error {error : GenerationError}
    (h : enumerationTable path members default = .error error) :
    (∃ unknown, default = some unknown ∧ (∀ member ∈ members, member.name ≠ unknown) ∧
      error = .invalidDefault path unknown) ∨
    Declares members default ∧ ∃ front member back,
      besides default members = front ++ member :: back ∧ Numbered front ∧
      ((¬ member.Fits ∧ error = .enumValueRange path member.name member.value.toInt) ∨
        member.Fits ∧ ∃ taken, error = clash path taken member ∧
          (member.number, taken) ∈ (0, zeroSymbol default) :: front.map entry) := by
  rcases declares_or_unknown members default with hdeclares | ⟨unknown, rfl, hunknown⟩
  · rw [enumerationTable_of_declares hdeclares] at h
    obtain ⟨front, member, back, hsplit, hfront, hfault⟩ := of_addAll_eq_error h
    refine Or.inr ⟨hdeclares, front, member, back, hsplit, placeable_zeroTable_iff.1 hfront,
      hfault.imp_right ?_⟩
    rintro ⟨hfits, taken, herror, htaken⟩
    refine ⟨hfits, taken, herror, ?_⟩
    rcases htaken with htaken | ⟨other, ho, hentry⟩
    · rw [find?_zeroTable] at htaken
      split at htaken
      · rename_i hzero
        cases htaken
        rw [hzero]
        exact List.mem_cons_self
      · cases htaken
    · exact List.mem_cons_of_mem _ (hentry ▸ List.mem_map_of_mem ho)
  · rw [enumerationTable_of_unknown hunknown] at h
    cases h
    exact Or.inl ⟨unknown, rfl, hunknown, rfl⟩

end EnumMember

open EnumMember in
/-- An enumeration has a table exactly if its default is the name of a member and the others have
numbers of their own. The table then holds the entry of 0 and one for each of them, in whatever
order they are declared. Otherwise an unknown default is at fault, or the first member in declared
order whose number does not fit or has been taken. -/
theorem LeafType.numbers_of_enumeration (path name : String) (members : List EnumMember)
    (default : Option String) :
    let type : LeafType := ⟨name, .enumeration members, default⟩
    let others := besides default members
    ((∃ table, type.enumerationValues path = .ok table) ↔
      Declares members default ∧ Numbered others) ∧
    (∀ table, type.enumerationValues path = .ok table →
      (∀ number symbol, table.find? number = some symbol ↔
        (number = 0 ∧ symbol = zeroSymbol default) ∨
          ∃ member ∈ others, number = member.number ∧ symbol = member.symbol) ∧
      table.size = others.length + 1 ∧
      ∀ reordered, members.Perm reordered →
        (⟨name, .enumeration reordered, default⟩ : LeafType).enumerationValues path =
          .ok table) ∧
    ∀ error, type.enumerationValues path = .error error →
      (∃ unknown, default = some unknown ∧ (∀ member ∈ members, member.name ≠ unknown) ∧
        error = .invalidDefault path unknown) ∨
      Declares members default ∧ ∃ front member back,
        others = front ++ member :: back ∧ Numbered front ∧
        ((¬ member.Fits ∧ error = .enumValueRange path member.name member.value.toInt) ∨
          member.Fits ∧ ∃ taken, error = clash path taken member ∧
            (member.number, taken) ∈ (0, zeroSymbol default) :: front.map entry) := by
  intro type others
  refine ⟨exists_enumerationTable_iff, fun table htable => ⟨fun number symbol => ?_, ?_, ?_⟩,
    fun error herror => of_enumerationTable_eq_error herror⟩
  · have hentries := perm_enumerationTable htable
    rw [← SortedMap.mem_entries_iff, hentries.mem_iff, List.mem_cons, List.mem_map, Prod.mk.injEq]
    refine or_congr_right (exists_congr fun member => and_congr_right fun _ => ?_)
    rw [entry, Prod.mk.injEq, eq_comm, @eq_comm _ member.symbol]
  · rw [SortedMap.size, (perm_enumerationTable htable).length_eq, List.length_cons,
      List.length_map]
  · exact fun reordered hperm => enumerationTable_of_perm hperm htable

end YangToProto

import Mathlib.Data.List.Nodup
import YangToProto.Proofs.Generation.EnumNumbers
import YangToProto.Proofs.Generation.EnumTables
import YangToProto.Proofs.Generation.IdentityNumbers
import YangToProto.Proofs.Proto.ValueNames

/-!
# Enums that proto3 accepts

An enum of proto3 gives no symbol to two numbers, and the first of its values is 0. The tables of
enumerations and identities keep the first rule unless two names have one symbol or a name has the
symbol of 0 (`LeafType.symbols_apart_iff`), and the second one unless an ordinal is negative
(`LeafType.zero_first_iff`).
-/

namespace YangToProto

open EnumMember

namespace LeafType

/-- The members that are numbered by their ordinals: those of an enumeration but for the default. -/
def numberedMembers (type : LeafType) : List EnumMember :=
  match type.kind with
  | .enumeration members => besides type.default members
  | _ => []

variable {path : String} {type : LeafType} {table : EnumTable}

/-- Only an enumeration has values by members. -/
theorem exists_members (h : type.enumerationValues path = .ok table) :
    ∃ members, type.kind = .enumeration members ∧
      enumerationTable path members type.default = .ok table := by
  rw [enumerationValues] at h
  split at h
  · rename_i members hkind
    exact ⟨members, hkind, h⟩
  · cases h

theorem numbered_numberedMembers (h : type.enumerationValues path = .ok table) :
    Numbered type.numberedMembers := by
  obtain ⟨members, hkind, htable⟩ := exists_members h
  rw [numberedMembers, hkind]
  exact (exists_enumerationTable_iff.1 ⟨table, htable⟩).2

theorem perm_enumerationValues (h : type.enumerationValues path = .ok table) :
    table.entries.Perm ((0, zeroSymbol type.default) :: type.numberedMembers.map entry) := by
  obtain ⟨members, hkind, htable⟩ := exists_members h
  rw [numberedMembers, hkind]
  exact perm_enumerationTable htable

end LeafType

namespace EnumTable

variable {values : EnumTable} {entries : List (Int × String)}

/-!
## Symbols
-/

/-- No two numbers have one symbol. -/
def SymbolsApart (values : EnumTable) : Prop :=
  ∀ number other symbol, values.find? number = some symbol → values.find? other = some symbol →
    number = other

theorem symbolsApart_iff_nodup (hentries : values.entries.Perm entries) :
    values.SymbolsApart ↔ (entries.map Prod.snd).Nodup := by
  rw [← (hentries.map Prod.snd).nodup_iff]
  constructor
  · intro hapart
    refine List.Nodup.map_on (fun one hone other hother hsame => ?_)
      (List.Nodup.of_map _ values.nodup_keys)
    have hfind := (SortedMap.mem_entries_iff values one.1 one.2).1 hone
    have hfind' := (SortedMap.mem_entries_iff values other.1 other.2).1 hother
    exact Prod.ext (hapart _ _ _ hfind (hsame ▸ hfind')) hsame
  · intro hnodup number other symbol hfind hfind'
    have hentry := (SortedMap.mem_entries_iff _ _ _).2 hfind
    have hentry' := (SortedMap.mem_entries_iff _ _ _).2 hfind'
    exact congrArg Prod.fst (List.inj_on_of_nodup_map hnodup hentry hentry' rfl)

/-!
## Lines
-/

def valueLine (indent enumName : String) (entry : Int × String) : String :=
  s!"{indent}{valueName enumName entry.2} = {entry.1};\n"

/-- The text is one line for each value, that of a given number first. -/
def LinesFrom (values : EnumTable) (number : Int) (indent enumName text : String) : Prop :=
  ∃ symbol others, values.entries.Perm ((number, symbol) :: others) ∧
    text = String.join (((number, symbol) :: others).map (valueLine indent enumName))

theorem toList_valueLine (indent enumName : String) (number : Int) (symbol : String) :
    (valueLine indent enumName (number, symbol)).toList =
      indent.toList ++ (enumName.toList ++ '_' :: (symbol.toList ++ ' ' ::
        ('=' :: ' ' :: ((toString number).toList ++ [';', '\n'])))) := by
  change (indent ++ valueName enumName symbol ++ " = " ++ toString number ++ ";\n").toList = _
  simp [toList_valueName]

/-- The line of a negative number is not that of 0. -/
theorem valueLine_append_ne {indent enumName symbol zero : String} {number : Int}
    (hnegative : number < 0) (hsymbol : ' ' ∉ symbol.toList) (hzero : ' ' ∉ zero.toList)
    (rest more : String) :
    valueLine indent enumName (number, symbol) ++ rest ≠
      valueLine indent enumName (0, zero) ++ more := by
  intro heq
  have hchars := congrArg String.toList heq
  simp only [String.toList_append, toList_valueLine, List.append_assoc, List.cons_append,
    List.append_cancel_left_eq, List.cons.injEq, true_and] at hchars
  obtain ⟨_, hnumbers⟩ := Segments.eq_of_append_cons hsymbol hzero hchars
  cases number with
  | ofNat n => exact absurd hnegative (Int.not_lt.2 (Int.natCast_nonneg n))
  | negSucc n =>
      have hsign : (toString (Int.negSucc n)).toList = '-' :: (Nat.repr (n + 1)).toList := by
        change ("-" ++ Nat.repr (n + 1)).toList = _
        rw [String.toList_append]
        rfl
      have hdigit : (toString (0 : Int)).toList = ['0'] := by decide
      rw [hsign, hdigit] at hnumbers
      simp at hnumbers

theorem render_eq_join (indent enumName : String) (values : EnumTable) :
    values.render indent enumName =
      String.join (values.entries.map (valueLine indent enumName)) :=
  render_eq indent enumName values

theorem linesFrom_render {first : Int × String} {rest : List (Int × String)}
    (hentries : values.entries = first :: rest) (indent enumName : String) :
    values.LinesFrom first.1 indent enumName (values.render indent enumName) := by
  refine ⟨first.2, rest, ?_, ?_⟩
  · rw [hentries]
  · rw [render_eq_join, hentries]

/-- In a table with an entry for 0 the first number is 0 or a negative one. -/
theorem exists_first {zero : String} (hzero : values.find? 0 = some zero) :
    ∃ first rest, values.entries = first :: rest ∧ (∀ entry ∈ rest, first.1 < entry.1) ∧
      (first = (0, zero) ∨ first.1 < 0) := by
  have hentry := (SortedMap.mem_entries_iff _ _ _).2 hzero
  have hincreasing := values.increasing
  cases hentries : values.entries with
  | nil => exact absurd (hentries ▸ hentry) List.not_mem_nil
  | cons first rest =>
      rw [hentries] at hentry hincreasing
      have hleast : ∀ entry ∈ rest, first.1 < entry.1 := fun entry hmem =>
        Int.compare_eq_lt.1 ((List.pairwise_cons.1 hincreasing).1 entry hmem)
      refine ⟨first, rest, rfl, hleast, ?_⟩
      rcases List.mem_cons.1 hentry with hsame | hmem
      · exact Or.inl hsame.symm
      · exact Or.inr (hleast _ hmem)

/-- The lines of a table start with that of 0 exactly if no number is negative. -/
theorem linesFrom_zero_iff {zero : String} (hzero : values.find? 0 = some zero)
    (hplain : ∀ entry ∈ values.entries, ' ' ∉ entry.2.toList) (indent enumName : String) :
    values.LinesFrom 0 indent enumName (values.render indent enumName) ↔
      ∀ entry ∈ values.entries, 0 ≤ entry.1 := by
  obtain ⟨first, rest, hentries, hleast, hfirst⟩ := exists_first hzero
  rcases hfirst with rfl | hnegative
  · refine iff_of_true (linesFrom_render hentries indent enumName) ?_
    rw [hentries]
    exact List.forall_mem_cons.2 ⟨Int.le_refl 0, fun entry hmem => Int.le_of_lt (hleast entry hmem)⟩
  · have hmem : first ∈ values.entries := hentries ▸ List.mem_cons_self
    refine iff_of_false ?_ fun hall => absurd (hall first hmem) (Int.not_le.2 hnegative)
    rintro ⟨symbol, others, hperm, htext⟩
    rw [render_eq_join, hentries, List.map_cons, List.map_cons, String.join_cons,
      String.join_cons] at htext
    have hsymbol := hplain (0, symbol) (hperm.mem_iff.2 List.mem_cons_self)
    exact valueLine_append_ne hnegative (hplain first hmem) hsymbol _ _ htext

end EnumTable

namespace LeafType

variable {path : String} {type : LeafType} {table : EnumTable}

theorem space_notMem_sanitize (name : String) : ' ' ∉ (Identifier.sanitize name).toList :=
  fun hmem => absurd (Identifier.isAllowed_of_mem_sanitize hmem) (by decide)

theorem space_notMem_zeroSymbol (default : Option String) :
    ' ' ∉ (zeroSymbol default).toList := by
  cases default with
  | none => exact (by decide : ' ' ∉ unsetSymbol.toList)
  | some name => exact space_notMem_sanitize name

theorem enumTable_cases (h : type.enumTable path = .ok table) :
    (∃ base, type.kind = .identityref base ∧ base.enumValues = .ok table) ∨
      type.enumerationValues path = .ok table := by
  rw [enumTable] at h
  split at h
  · rename_i base hkind
    exact Or.inl ⟨base, hkind, h⟩
  · exact Or.inr h

/-- The table of an enumerated type has an entry for 0. -/
theorem exists_zero (h : type.enumTable path = .ok table) :
    ∃ zero, table.find? 0 = some zero := by
  suffices hentry : ∃ zero, (0, zero) ∈ table.entries by
    simpa only [SortedMap.mem_entries_iff] using hentry
  rcases enumTable_cases h with ⟨base, _, hbase⟩ | hmembers
  · exact ⟨_, (IdentityBase.perm_enumValues hbase).2.mem_iff.2 List.mem_cons_self⟩
  · exact ⟨_, (perm_enumerationValues hmembers).mem_iff.2 List.mem_cons_self⟩

/-- The symbols of an enumerated type hold no blanks. -/
theorem space_notMem_symbol (h : type.enumTable path = .ok table) :
    ∀ entry ∈ table.entries, ' ' ∉ entry.2.toList := by
  intro entry hentry
  rcases enumTable_cases h with ⟨base, _, hbase⟩ | hmembers
  · rw [(IdentityBase.perm_enumValues hbase).2.mem_iff, List.mem_cons] at hentry
    rcases hentry with rfl | hentry
    · exact space_notMem_zeroSymbol none
    · have hsymbol := List.mem_map_of_mem (f := Prod.snd) hentry
      rw [IdentityBase.map_snd_numberedFrom] at hsymbol
      obtain ⟨pair, hpair, hsame⟩ := List.mem_map.1 hsymbol
      rw [← hsame, (IdentityBase.mem_symbols_iff.1 hpair).2]
      exact space_notMem_sanitize pair.2
  · rw [(perm_enumerationValues hmembers).mem_iff, List.mem_cons, List.mem_map] at hentry
    rcases hentry with rfl | ⟨member, _, rfl⟩
    · exact space_notMem_zeroSymbol type.default
    · exact space_notMem_sanitize member.name

/-- Identities have positive numbers, and a member has a negative one if its ordinal is. -/
theorem nonnegative_iff (h : type.enumTable path = .ok table) :
    (∀ entry ∈ table.entries, 0 ≤ entry.1) ↔
      ∀ member ∈ type.numberedMembers, 0 ≤ member.value.toInt := by
  rcases enumTable_cases h with ⟨base, hkind, hbase⟩ | hmembers
  · have hnone : type.numberedMembers = [] := by rw [numberedMembers, hkind]
    refine iff_of_true (fun entry hentry => ?_) (by simp [hnone])
    rw [(IdentityBase.perm_enumValues hbase).2.mem_iff, List.mem_cons] at hentry
    rcases hentry with rfl | hentry
    · exact Int.le_refl 0
    · have hone := IdentityBase.le_of_mem_numberedFrom hentry
      omega
  · have hentries := perm_enumerationValues hmembers
    constructor
    · intro hall member hmem
      have hnumber := hall member.entry
        (hentries.mem_iff.2 (List.mem_cons_of_mem _ (List.mem_map_of_mem hmem)))
      -- the number is one above the ordinal, and it is not 0
      have hnonzero := (numbered_numberedMembers hmembers).nonzero member hmem
      rw [number] at hnonzero
      change 0 ≤ member.value.toInt + 1 at hnumber
      omega
    · intro hall entry hentry
      rw [hentries.mem_iff, List.mem_cons, List.mem_map] at hentry
      rcases hentry with rfl | ⟨member, hmem, rfl⟩
      · exact Int.le_refl 0
      · have hordinal := hall member hmem
        change 0 ≤ member.value.toInt + 1
        omega

/-!
## The theorems
-/

/-- A table gives no symbol to two numbers exactly if the members of the enumeration but for the
default have different symbols, none of them the symbol of 0, and for an identity base exactly if no
identity has the symbol of 0. -/
theorem symbols_apart_iff (path : String) (type : LeafType) (base : IdentityBase) :
    (∀ table, type.enumerationValues path = .ok table →
      (table.SymbolsApart ↔ (type.numberedMembers.map symbol).Nodup ∧
        ∀ member ∈ type.numberedMembers, member.symbol ≠ zeroSymbol type.default)) ∧
    ∀ table, base.enumValues = .ok table →
      (table.SymbolsApart ↔ ∀ name ∈ base.values, Identifier.sanitize name ≠ unsetSymbol) := by
  constructor
  · intro table htable
    rw [EnumTable.symbolsApart_iff_nodup (perm_enumerationValues htable), List.map_cons,
      List.map_map, List.nodup_cons, and_comm, List.mem_map]
    refine and_congr_right fun _ => ?_
    simp [entry]
  · intro table htable
    obtain ⟨hincreasing, hentries⟩ := IdentityBase.perm_enumValues htable
    have hnodup : (base.symbols.map Prod.fst).Nodup :=
      hincreasing.imp fun hlt heq => by simp [heq, Std.compare_self] at hlt
    rw [EnumTable.symbolsApart_iff_nodup hentries, List.map_cons, List.nodup_cons,
      IdentityBase.map_snd_numberedFrom, and_iff_left hnodup]
    constructor
    · intro hfree name hname heq
      exact hfree (List.mem_map.2 ⟨(_, name), IdentityBase.mem_symbols_iff.2 ⟨hname, rfl⟩, heq⟩)
    · intro hall hmem
      obtain ⟨pair, hpair, heq⟩ := List.mem_map.1 hmem
      obtain ⟨hname, hsymbol⟩ := IdentityBase.mem_symbols_iff.1 hpair
      exact hall pair.2 hname (hsymbol ▸ heq)

theorem symbols_apart_iff_three_members :
    let type : LeafType :=
      ⟨"enumeration", .enumeration [⟨"a.b", 0⟩, ⟨"UNSET", 1⟩, ⟨"a-c", -7⟩], some "UNSET"⟩
    let base : IdentityBase := ⟨"b", none, ["x.y", "x", "x.y"]⟩
    (∃ table, type.enumerationValues "/m/x" = .ok table ∧ table.SymbolsApart) ∧
      ∃ table, base.enumValues = .ok table ∧ table.SymbolsApart := by
  intro type base
  have hsome : (type.enumerationValues "/m/x").toOption.isSome = true := by decide +kernel
  have hsome' : base.enumValues.toOption.isSome = true := by cbv
  obtain ⟨table, htable⟩ := exists_eq_ok_of_isSome hsome
  obtain ⟨table', htable'⟩ := exists_eq_ok_of_isSome hsome'
  obtain ⟨hmembers, hidentities⟩ := symbols_apart_iff "/m/x" type base
  exact ⟨⟨table, htable, (hmembers table htable).2 (by decide +kernel)⟩,
    table', htable', (hidentities table' htable').2 (by decide +kernel)⟩

/-- Two members that differ in a separator, and an identity that is called like the symbol of 0. -/
theorem not_symbols_apart :
    let type : LeafType := ⟨"enumeration", .enumeration [⟨"a.b", 0⟩, ⟨"a-b", 1⟩], none⟩
    let base : IdentityBase := ⟨"b", none, ["UNSET"]⟩
    (∃ table, type.enumerationValues "/m/x" = .ok table ∧ ¬ table.SymbolsApart) ∧
      ∃ table, base.enumValues = .ok table ∧ ¬ table.SymbolsApart := by
  intro type base
  have hsome : (type.enumerationValues "/m/x").toOption.isSome = true := by decide +kernel
  have hsome' : base.enumValues.toOption.isSome = true := by cbv
  obtain ⟨table, htable⟩ := exists_eq_ok_of_isSome hsome
  obtain ⟨table', htable'⟩ := exists_eq_ok_of_isSome hsome'
  refine ⟨⟨table, htable, ?_⟩, table', htable', ?_⟩
  · rw [EnumTable.symbolsApart_iff_nodup (perm_enumerationValues htable)]
    decide +kernel
  · have hsymbols : base.symbols = [("UNSET", "UNSET")] := by cbv
    rw [EnumTable.symbolsApart_iff_nodup (IdentityBase.perm_enumValues htable').2, hsymbols]
    decide +kernel

/-- The value lines of an enumerated type start with that of 0, and go on with one for each other
value, exactly if no member but the default has a negative ordinal. In any case there is one line
for each value, and these lines make up the enum of a package and the embedded enum of a message. -/
theorem zero_first_iff {path : String} {type : LeafType} {table : EnumTable}
    (h : type.enumTable path = .ok table) :
    (∀ indent enumName, table.LinesFrom 0 indent enumName (table.render indent enumName) ↔
      ∀ member ∈ type.numberedMembers, 0 ≤ member.value.toInt) ∧
    (∀ indent enumName, ∃ number ≤ 0,
      table.LinesFrom number indent enumName (table.render indent enumName)) ∧
    (∀ enum : PackageEnum, enum.values = table → ∃ above,
      enum.render = above ++ s!"enum {enum.name} \x7b\n" ++ table.render "  " enum.name ++
        "\x7d\n") ∧
    ∀ (message : Message) (enumName : String), message.enums.find? enumName = some table →
      ∃ above below, message.render = above ++ (s!"  enum {enumName} \x7b\n" ++
        table.render "    " enumName ++ "  \x7d\n") ++ below := by
  obtain ⟨zero, hzero⟩ := exists_zero h
  refine ⟨fun indent enumName => ?_, fun indent enumName => ?_, fun enum hvalues => ?_,
    fun message enumName hfind => ?_⟩
  · exact (EnumTable.linesFrom_zero_iff hzero (space_notMem_symbol h) indent enumName).trans
      (nonnegative_iff h)
  · obtain ⟨first, rest, hentries, _, hfirst⟩ := EnumTable.exists_first hzero
    refine ⟨first.1, ?_, EnumTable.linesFrom_render hentries indent enumName⟩
    rcases hfirst with rfl | hnegative
    · exact Int.le_refl 0
    · exact Int.le_of_lt hnegative
  · rw [← hvalues]
    exact ⟨_, rfl⟩
  · obtain ⟨front, back, hentries⟩ :=
      List.append_of_mem ((SortedMap.mem_entries_iff _ _ _).2 hfind)
    refine ⟨"\n" ++ message.comment ++ s!"message {message.name} \x7b\n" ++
        String.join (front.map fun entry => Message.renderEnum entry.1 entry.2),
      String.join (back.map fun entry => Message.renderEnum entry.1 entry.2) ++
        String.join (message.fields.map Field.render) ++ "\x7d\n", ?_⟩
    rw [Message.render, hentries, List.map_append, List.map_cons, String.join_append,
      String.join_cons]
    simp only [Message.renderEnum, String.append_assoc]

/-- An enumeration whose default has the least ordinal. -/
theorem zero_first_iff_negative_default :
    let type : LeafType :=
      ⟨"enumeration", .enumeration [⟨"LOW", -2⟩, ⟨"UP", 0⟩, ⟨"HIGH", 5⟩], some "LOW"⟩
    ∃ table, type.enumTable "/m/level" = .ok table ∧
      table.LinesFrom 0 "    " "Level" (table.render "    " "Level") := by
  intro type
  have hsome : (type.enumTable "/m/level").toOption.isSome = true := by decide +kernel
  obtain ⟨table, htable⟩ := exists_eq_ok_of_isSome hsome
  exact ⟨table, htable, ((zero_first_iff htable).1 "    " "Level").2 (by decide +kernel)⟩

/-- A member with a negative ordinal comes before 0. -/
theorem not_zero_first :
    let type : LeafType := ⟨"enumeration", .enumeration [⟨"LOW", -2⟩, ⟨"UP", 0⟩], none⟩
    ∃ table, type.enumTable "/m/level" = .ok table ∧
      ¬ table.LinesFrom 0 "    " "Level" (table.render "    " "Level") := by
  intro type
  have hsome : (type.enumTable "/m/level").toOption.isSome = true := by decide +kernel
  obtain ⟨table, htable⟩ := exists_eq_ok_of_isSome hsome
  obtain ⟨zero, hzero⟩ := exists_zero htable
  refine ⟨table, htable, fun hlines => ?_⟩
  have hall := (nonnegative_iff htable).1
    ((EnumTable.linesFrom_zero_iff hzero (space_notMem_symbol htable) _ _).1 hlines)
  exact absurd hall (by decide +kernel)

end LeafType

end YangToProto

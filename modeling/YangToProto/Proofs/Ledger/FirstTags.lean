import YangToProto.Proofs.Ledger.Assign

/-!
# Tags of a new message

The fields of a message that the ledger does not know are numbered from 1 on, except that the
reserved range is left out (`Ledger.toNat_of_assign_of_new`). What the walk along the fields keeps
is that the highest tag is that of the position before (`FieldTags.toNat_of_assign_of_new`).
-/

namespace YangToProto

namespace Tag

/-- The tag of the field in a position, counted from 1, of a new message. -/
def nth (position : Nat) : Nat :=
  if position < reservedStart then position else position + (reservedEnd + 1 - reservedStart)

/-- The position behind one is that of the next tag. -/
theorem nth_succ (position : Nat) :
    nth (position + 1) =
      if reservedStart ≤ nth position + 1 ∧ nth position + 1 ≤ reservedEnd then reservedEnd + 1
      else nth position + 1 := by
  have hstart : reservedStart = 19000 := rfl
  have hend : reservedEnd = 19999 := rfl
  rw [nth, nth]
  by_cases hbelow : position < reservedStart
  · rw [if_pos hbelow]
    split <;> split <;> omega
  · rw [if_neg hbelow, if_neg (by omega), if_neg (by omega)]
    omega

theorem toNat_of_next?_of_nth {highest tag : UInt32} {position : Nat}
    (hhighest : highest.toNat = nth position) (h : next? highest = some tag) :
    tag.toNat = nth (position + 1) := by
  rw [next?, hhighest, ← nth_succ] at h
  split at h
  · rename_i hmaximum
    cases h
    rw [UInt32.toNat_ofNat', Nat.mod_eq_of_lt]
    simp only [maximum] at hmaximum
    omega
  · cases h

end Tag

namespace FieldTags

/-- Fields that are new get the tags of the positions behind the highest tag. -/
theorem toNat_of_assign_of_new {fields : List String} (hnodup : fields.Nodup) {known : FieldTags}
    (hnew : ∀ field ∈ fields, known.find? field = none) {highest : UInt32} {position : Nat}
    (hhighest : highest.toNat = Tag.nth position) {tags : List UInt32}
    (h : (assign highest known fields).1 = some tags) :
    tags.map UInt32.toNat = (List.range' (position + 1) fields.length).map Tag.nth := by
  induction fields generalizing known highest position tags with
  | nil =>
      cases h
      rfl
  | cons field rest ih =>
      obtain ⟨hfirst, hrest⟩ := List.nodup_cons.1 hnodup
      rw [assign, hnew field List.mem_cons_self] at h
      cases hnext : Tag.next? highest with
      | none => simp [hnext] at h
      | some tag =>
          simp only [hnext] at h
          obtain ⟨others, hothers, rfl⟩ := Option.map_eq_some_iff.1 h
          have htag := Tag.toNat_of_next?_of_nth hhighest hnext
          have hnew' : ∀ other ∈ rest, (known.insert field tag).find? other = none := by
            intro other ho
            have hne : other ≠ field := fun heq => hfirst (heq ▸ ho)
            rw [SortedMap.find?_insert_ne known tag hne]
            exact hnew other (List.mem_cons_of_mem _ ho)
          rw [List.map_cons, htag, ih hrest hnew' htag hothers, List.length_cons, List.range'_succ,
            List.map_cons]

end FieldTags

/-- Each field of a message that the ledger does not know gets the tag of its position. -/
theorem Ledger.toNat_of_assign_of_new {ledger later : Ledger} {path : String}
    (hnew : ledger.messages.find? path = none) {fields : List String} (hnodup : fields.Nodup)
    {tags : List UInt32} (h : ledger.assign path fields = (.ok tags, later)) {k : Nat}
    {tag : UInt32} (htag : tags[k]? = some tag) : tag.toNat = Tag.nth (k + 1) := by
  have hknown : ledger.fieldTags path = ∅ := by rw [fieldTags, hnew, Option.getD_none]
  have hwalk := walk_of_assign (congrArg Prod.fst h)
  rw [hknown] at hwalk
  have hhighest : (∅ : FieldTags).highest.toNat = Tag.nth 0 := rfl
  have hall := FieldTags.toNat_of_assign_of_new hnodup (fun _ _ => rfl) hhighest hwalk
  have hk : (tags.map UInt32.toNat)[k]? = some tag.toNat := by
    rw [List.getElem?_map, htag]
    rfl
  rw [hall, List.getElem?_map] at hk
  obtain ⟨position, hposition, hnth⟩ := Option.map_eq_some_iff.1 hk
  obtain ⟨_, rfl⟩ := List.getElem?_eq_some_iff.1 hposition
  rw [← hnth, List.getElem_range']
  congr 1
  omega

end YangToProto

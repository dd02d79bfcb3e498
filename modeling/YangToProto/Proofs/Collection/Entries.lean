import YangToProto.Collection.SortedMap

/-!
# Keys and entries of a map

What `contains`, `keys` and `insertNew` say in terms of look-ups. A name that is not in a set makes
it larger by one (`NameSet.size_add`).
-/

namespace YangToProto

namespace SortedMap

open Std

variable {κ α : Type} [Ord κ]

theorem contains_iff (m : SortedMap κ α) (key : κ) :
    m.contains key = true ↔ ∃ x, m.find? key = some x := by
  rw [contains, Option.isSome_iff_exists]

theorem contains_eq_false_iff (m : SortedMap κ α) (key : κ) :
    m.contains key = false ↔ m.find? key = none := by
  simp [contains]

theorem contains_insert [TransOrd κ] [LawfulEqOrd κ] [DecidableEq κ] (m : SortedMap κ α)
    (key other : κ) (x : α) :
    (m.insert key x).contains other = (decide (other = key) || m.contains other) := by
  rw [contains, contains, find?_insert]
  by_cases h : other = key <;> simp [h]

theorem mem_keys_iff [TransOrd κ] [LawfulEqOrd κ] (m : SortedMap κ α) (key : κ) :
    key ∈ m.keys ↔ m.contains key = true := by
  rw [contains_iff, keys, List.mem_map]
  constructor
  · rintro ⟨⟨_, x⟩, h, rfl⟩
    exact ⟨x, (m.mem_entries_iff _ x).1 h⟩
  · rintro ⟨x, h⟩
    exact ⟨(key, x), (m.mem_entries_iff key x).2 h, rfl⟩

theorem nodup_keys [TransOrd κ] (m : SortedMap κ α) : m.keys.Nodup := by
  rw [keys, List.Nodup, List.pairwise_map]
  refine m.increasing.imp fun h heq => ?_
  simp [heq, compare_self] at h

theorem find?_insertNew [TransOrd κ] [LawfulEqOrd κ] [DecidableEq κ] (m : SortedMap κ α)
    (key other : κ) (x : α) :
    (m.insertNew key x).find? other =
      if other = key then some ((m.find? key).getD x) else m.find? other := by
  rw [insertNew]
  cases h : m.find? key with
  | none =>
      rw [if_neg (by simp [contains, h]), find?_insert]
      rfl
  | some y =>
      rw [if_pos (by simp [contains, h])]
      split
      · rename_i heq
        rw [heq, h]
        rfl
      · rfl

theorem find?_foldl_insert [TransOrd κ] [LawfulEqOrd κ] [DecidableEq κ] {β : Type}
    (f : κ → α → β) (entries : List (κ × α))
    (h : entries.Pairwise fun a b => compare a.1 b.1 = .lt) (m : SortedMap κ β) (key : κ) :
    (entries.foldl (fun m entry => m.insert entry.1 (f entry.1 entry.2)) m).find? key =
      ((lookup key entries).map (f key)).or (m.find? key) := by
  induction entries generalizing m with
  | nil => rfl
  | cons entry rest ih =>
      obtain ⟨first, x⟩ := entry
      obtain ⟨hfirst, hrest⟩ := List.pairwise_cons.1 h
      rw [List.foldl_cons, ih hrest, find?_insert, lookup]
      by_cases heq : key = first
      · subst heq
        have hnone : lookup key rest = none := by
          refine lookup_eq_none fun entry hentry => ?_
          rw [hfirst entry hentry]
          exact Ordering.noConfusion
        rw [hnone, if_pos rfl, if_pos compare_self]
        rfl
      · have hne : ¬ compare key first = .eq := fun h => heq (LawfulEqOrd.eq_of_compare h)
        rw [if_neg heq, if_neg hne]

/-- A map is made again by adding its entries one by one. -/
theorem foldl_insert_entries [TransOrd κ] [LawfulEqOrd κ] [DecidableEq κ] (m : SortedMap κ α) :
    m.entries.foldl (fun found entry => found.insert entry.1 entry.2) ∅ = m := by
  refine ext_find? fun key => ?_
  have hfind := find?_foldl_insert (fun _ x => x) m.entries m.increasing ∅ key
  rw [hfind, Option.map_id_fun']
  exact Option.or_none

theorem perm_place {key : κ} {x : α} {l : List (κ × α)} (h : lookup key l = none) :
    (place key x l).Perm ((key, x) :: l) := by
  induction l with
  | nil => exact List.Perm.refl _
  | cons head tail ih =>
      obtain ⟨k, y⟩ := head
      simp only [lookup] at h
      split at h
      · cases h
      · rename_i hne
        simp only [place]
        split
        · exact List.Perm.refl _
        · contradiction
        · exact ((ih h).cons (k, y)).trans (List.Perm.swap (key, x) (k, y) tail)

/-- A new key adds one entry. -/
theorem perm_insert [TransOrd κ] {m : SortedMap κ α} {key : κ} (h : m.find? key = none) (x : α) :
    (m.insert key x).entries.Perm ((key, x) :: m.entries) := perm_place h

/-- Maps with the same entries are equal. -/
theorem eq_of_perm [TransOrd κ] {m n : SortedMap κ α} (h : m.entries.Perm n.entries) : m = n := by
  have hentries := eq_of_mem_iff m.increasing n.increasing fun _ => h.mem_iff
  cases m
  cases n
  simp_all

/-- Every entry of one map is an entry of the other. -/
def Included (m n : SortedMap κ α) : Prop := ∀ key x, m.find? key = some x → n.find? key = some x

theorem Included.refl (m : SortedMap κ α) : m.Included m := fun _ _ h => h

theorem Included.trans {m n o : SortedMap κ α} (h : m.Included n) (h' : n.Included o) :
    m.Included o := fun key x hx => h' key x (h key x hx)

theorem included_insert [TransOrd κ] [LawfulEqOrd κ] {m : SortedMap κ α} {key : κ}
    (h : m.find? key = none) (x : α) : m.Included (m.insert key x) := by
  intro other y hy
  have hne : other ≠ key := fun heq => by simp [heq, h] at hy
  rw [find?_insert_ne m x hne, hy]

end SortedMap

namespace NameSet

theorem contains_add (names : NameSet) (name other : String) :
    (names.add name).contains other = (decide (other = name) || names.contains other) :=
  SortedMap.contains_insert names name other ()

@[simp] theorem contains_add_self (names : NameSet) (name : String) :
    (names.add name).contains name = true := by
  simp [contains_add]

theorem contains_add_of_contains {names : NameSet} {other : String}
    (h : names.contains other = true) (name : String) :
    (names.add name).contains other = true := by
  simp [contains_add, h]

theorem size_add {names : NameSet} {name : String} (h : names.contains name = false) :
    (names.add name).size = names.size + 1 :=
  (SortedMap.perm_insert ((SortedMap.contains_eq_false_iff names name).1 h) ()).length_eq

end NameSet

end YangToProto

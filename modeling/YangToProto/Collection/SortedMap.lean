/-!
# Maps in key order

A finite map is the list of its entries with strictly increasing keys. The order is part of the
type, so every listing of a map is sorted and two maps that answer every look-up alike are equal
(`SortedMap.ext_find?`). A set of keys is a map to `Unit`.
-/

namespace YangToProto

/-- A finite map from `κ` to `α`: its entries with strictly increasing keys. -/
structure SortedMap (κ : Type) (α : Type) [Ord κ] where
  entries : List (κ × α)
  increasing : entries.Pairwise fun a b => compare a.1 b.1 = .lt

namespace SortedMap

open Std

variable {κ α β : Type} [Ord κ]

/-- The value that a list of entries in key order has for a key. -/
def lookup (key : κ) : List (κ × α) → Option α
  | [] => none
  | (k, x) :: rest => if compare key k = .eq then some x else lookup key rest

/-- A list of entries in key order with one entry added, or replaced if its key is there. -/
def place (key : κ) (x : α) : List (κ × α) → List (κ × α)
  | [] => [(key, x)]
  | (k, y) :: rest =>
    match compare key k with
    | .lt => (key, x) :: (k, y) :: rest
    | .eq => (key, x) :: rest
    | .gt => (k, y) :: place key x rest

theorem mem_place {key : κ} {x : α} {e : κ × α} {l : List (κ × α)} (h : e ∈ place key x l) :
    e = (key, x) ∨ e ∈ l := by
  induction l with
  | nil => simpa [place] using h
  | cons head tail ih =>
    obtain ⟨k, y⟩ := head
    simp only [place] at h
    split at h <;> grind

theorem pairwise_place [TransOrd κ] {key : κ} {x : α} {l : List (κ × α)}
    (h : l.Pairwise fun a b => compare a.1 b.1 = .lt) :
    (place key x l).Pairwise fun a b => compare a.1 b.1 = .lt := by
  induction l with
  | nil => simp [place]
  | cons head tail ih =>
    obtain ⟨k, y⟩ := head
    have hd := List.pairwise_cons.1 h
    simp only [place]
    split
    · rename_i hc
      refine List.pairwise_cons.2 ⟨fun e he => ?_, h⟩
      rcases List.mem_cons.1 he with rfl | he
      · exact hc
      · exact TransCmp.lt_trans hc (hd.1 e he)
    · rename_i hc
      exact List.pairwise_cons.2 ⟨fun e he => TransCmp.lt_of_eq_of_lt hc (hd.1 e he), hd.2⟩
    · rename_i hc
      refine List.pairwise_cons.2 ⟨fun e he => ?_, ih hd.2⟩
      rcases mem_place he with rfl | he
      · exact OrientedCmp.lt_of_gt hc
      · exact hd.1 e he

def empty : SortedMap κ α := ⟨[], .nil⟩

instance : EmptyCollection (SortedMap κ α) := ⟨empty⟩

instance : Inhabited (SortedMap κ α) := ⟨empty⟩

instance [DecidableEq κ] [DecidableEq α] : DecidableEq (SortedMap κ α) := fun m n =>
  decidable_of_iff (m.entries = n.entries)
    ⟨fun h => by cases m; cases n; simp_all, fun h => h ▸ rfl⟩

def find? (m : SortedMap κ α) (key : κ) : Option α := lookup key m.entries

def contains (m : SortedMap κ α) (key : κ) : Bool := (m.find? key).isSome

def keys (m : SortedMap κ α) : List κ := m.entries.map (·.1)

def values (m : SortedMap κ α) : List α := m.entries.map (·.2)

def size (m : SortedMap κ α) : Nat := m.entries.length

def isEmpty (m : SortedMap κ α) : Bool := m.entries.isEmpty

/-- The map with `key` set to `x`, whatever it was before. -/
def insert [TransOrd κ] (m : SortedMap κ α) (key : κ) (x : α) : SortedMap κ α :=
  ⟨place key x m.entries, pairwise_place m.increasing⟩

/-- The map with `key` set to `x` if it had no value. -/
def insertNew [TransOrd κ] (m : SortedMap κ α) (key : κ) (x : α) : SortedMap κ α :=
  if m.contains key then m else m.insert key x

/-- The entries in order, a later one replacing an earlier one of its key. -/
def ofList [TransOrd κ] (entries : List (κ × α)) : SortedMap κ α :=
  entries.foldl (fun m e => m.insert e.1 e.2) empty

@[simp] theorem find?_empty (key : κ) : (empty : SortedMap κ α).find? key = none := rfl

theorem lookup_eq_none {key : κ} {l : List (κ × α)} (h : ∀ e ∈ l, compare key e.1 ≠ .eq) :
    lookup key l = none := by
  induction l with
  | nil => rfl
  | cons head tail ih => simp_all [lookup]

theorem mem_of_lookup [LawfulEqOrd κ] {key : κ} {x : α} {l : List (κ × α)}
    (h : lookup key l = some x) : (key, x) ∈ l := by
  induction l with
  | nil => simp [lookup] at h
  | cons head tail ih =>
    obtain ⟨k, y⟩ := head
    simp only [lookup] at h
    split at h
    · rename_i hc
      cases LawfulEqCmp.eq_of_compare hc
      simp_all
    · exact List.mem_cons_of_mem _ (ih h)

theorem lookup_place_self [TransOrd κ] (key : κ) (x : α) (l : List (κ × α)) :
    lookup key (place key x l) = some x := by
  induction l with
  | nil => simp [place, lookup, compare_self]
  | cons head tail ih =>
    obtain ⟨k, y⟩ := head
    simp only [place]
    split <;> simp_all [lookup, compare_self]

theorem lookup_place_ne [TransOrd κ] [LawfulEqOrd κ] {key other : κ} (x : α) (h : other ≠ key)
    (l : List (κ × α)) : lookup other (place key x l) = lookup other l := by
  have hne : compare other key ≠ .eq := fun hc => h (LawfulEqCmp.eq_of_compare hc)
  induction l with
  | nil => simp [place, lookup, hne]
  | cons head tail ih =>
    obtain ⟨k, y⟩ := head
    simp only [place]
    split
    · simp [lookup, hne]
    · rename_i hc
      cases LawfulEqCmp.eq_of_compare hc
      simp [lookup, hne]
    · simp [lookup, ih]

@[simp] theorem find?_insert_self [TransOrd κ] (m : SortedMap κ α) (key : κ) (x : α) :
    (m.insert key x).find? key = some x := lookup_place_self key x m.entries

theorem find?_insert_ne [TransOrd κ] [LawfulEqOrd κ] (m : SortedMap κ α) {key other : κ} (x : α)
    (h : other ≠ key) : (m.insert key x).find? other = m.find? other :=
  lookup_place_ne x h m.entries

theorem find?_insert [TransOrd κ] [LawfulEqOrd κ] [DecidableEq κ] (m : SortedMap κ α)
    (key other : κ) (x : α) :
    (m.insert key x).find? other = if other = key then some x else m.find? other := by
  split
  · rename_i h
    exact h ▸ find?_insert_self m other x
  · rename_i h
    exact find?_insert_ne m x h

theorem lookup_of_mem [TransOrd κ] {key : κ} {x : α} {l : List (κ × α)}
    (hl : l.Pairwise fun a b => compare a.1 b.1 = .lt) (h : (key, x) ∈ l) :
    lookup key l = some x := by
  induction l with
  | nil => simp at h
  | cons head tail ih =>
    obtain ⟨k, y⟩ := head
    have hd := List.pairwise_cons.1 hl
    rcases List.mem_cons.1 h with h | h
    · cases h
      simp [lookup, compare_self]
    · have hlt : compare k key = .lt := hd.1 _ h
      have hne : compare key k ≠ .eq := by
        rw [@OrientedCmp.eq_swap κ compare _ key k, hlt]
        simp
      simp [lookup, hne, ih hd.2 h]

/-- In a map, an entry is in the list exactly when its key has its value. -/
theorem mem_entries_iff [TransOrd κ] [LawfulEqOrd κ] (m : SortedMap κ α) (key : κ) (x : α) :
    (key, x) ∈ m.entries ↔ m.find? key = some x :=
  ⟨lookup_of_mem m.increasing, mem_of_lookup⟩

theorem eq_of_mem_iff [TransOrd κ] {l r : List (κ × α)}
    (hl : l.Pairwise fun a b => compare a.1 b.1 = .lt)
    (hr : r.Pairwise fun a b => compare a.1 b.1 = .lt) (h : ∀ e, e ∈ l ↔ e ∈ r) : l = r := by
  have irrefl : ∀ {a b : κ × α}, compare a.1 b.1 = .lt → compare b.1 a.1 = .lt → False := by
    intro a b hab hba
    have := TransCmp.lt_trans hab hba
    simp [compare_self] at this
  induction l generalizing r with
  | nil =>
    cases r with
    | nil => rfl
    | cons b r => exact absurd ((h b).2 (by simp)) (by simp)
  | cons a l ih =>
    cases r with
    | nil => exact absurd ((h a).1 (by simp)) (by simp)
    | cons b r =>
      have ha := List.pairwise_cons.1 hl
      have hb := List.pairwise_cons.1 hr
      have hab : a = b := by
        rcases List.mem_cons.1 ((h a).1 (by simp)) with h₁ | h₁
        · exact h₁
        · rcases List.mem_cons.1 ((h b).2 (by simp)) with h₂ | h₂
          · exact h₂.symm
          · exact (irrefl (ha.1 b h₂) (hb.1 a h₁)).elim
      subst hab
      refine congrArg (a :: ·) (ih ha.2 hb.2 fun e => ⟨fun he => ?_, fun he => ?_⟩)
      · rcases List.mem_cons.1 ((h e).1 (List.mem_cons_of_mem _ he)) with rfl | h₁
        · exact (irrefl (ha.1 e he) (ha.1 e he)).elim
        · exact h₁
      · rcases List.mem_cons.1 ((h e).2 (List.mem_cons_of_mem _ he)) with rfl | h₁
        · exact (irrefl (hb.1 e he) (hb.1 e he)).elim
        · exact h₁

/-- Maps that answer every look-up alike are equal. -/
theorem ext_find? [TransOrd κ] [LawfulEqOrd κ] {m n : SortedMap κ α}
    (h : ∀ key, m.find? key = n.find? key) : m = n := by
  have : m.entries = n.entries := eq_of_mem_iff m.increasing n.increasing fun ⟨key, x⟩ => by
    rw [mem_entries_iff, mem_entries_iff, h]
  cases m
  cases n
  simp_all

end SortedMap

/-- A set of names, listed in order. -/
abbrev NameSet := SortedMap String Unit

namespace NameSet

def add (names : NameSet) (name : String) : NameSet := SortedMap.insert names name ()

def ofNames (names : List String) : NameSet := names.foldl add SortedMap.empty

end NameSet

end YangToProto

import YangToProto.Proofs.Collection.Entries
import YangToProto.Proto.Identifier

/-!
# Free names

A free name is the candidate itself or has the least free suffix (`NameSet.firstFree`): of the
`used.size + 1` suffixes that are tried one must be free, because different suffixes give different
names. `firstFree_eq_numbered` turns this into a way to compute it in a larger scope.

The search with a 32-bit counter (`NameSet.disambiguate?`) finds the same name unless the candidate
and all suffixes that the counter has are in use (`NameSet.Exhausted`). So a claimed name is free
(`NameSet.contains_firstFree`), and so are names claimed in turn (`NameSet.claimAll`).
-/

namespace YangToProto

namespace Identifier

theorem ofDigitChars_repr (n : Nat) : Nat.ofDigitChars 10 (Nat.repr n).toList 0 = n := by
  simp [Nat.repr]

theorem numbered_injective {name : String} {m n : Nat} (h : numbered name m = numbered name n) :
    m = n := by
  have hrepr : Nat.repr m = Nat.repr n := by
    change name ++ "_" ++ Nat.repr m = name ++ "_" ++ Nat.repr n at h
    exact (String.append_right_inj (name ++ "_")).1 h
  rw [← ofDigitChars_repr m, hrepr, ofDigitChars_repr]

theorem nodup_numbered (name : String) (start count : Nat) :
    ((List.range' start count).map (numbered name)).Nodup := by
  rw [List.Nodup, List.pairwise_map]
  exact List.Pairwise.imp (fun hne heq => hne (numbered_injective heq)) List.nodup_range'

end Identifier

namespace NameSet

open Identifier

theorem exists_numbered_free (used : NameSet) (candidate : String) :
    ∃ n ∈ List.range' 1 (used.size + 1), used.contains (numbered candidate n) = false := by
  apply Classical.byContradiction
  intro hall
  -- otherwise `size + 1` different names would be among the `size` names in use
  have hsub : (List.range' 1 (used.size + 1)).map (numbered candidate) ⊆ used.keys := by
    intro name hname
    obtain ⟨n, hn, rfl⟩ := List.mem_map.1 hname
    rw [SortedMap.mem_keys_iff]
    cases hused : used.contains (numbered candidate n) with
    | true => rfl
    | false => exact absurd ⟨n, hn, hused⟩ hall
  have hlength := (nodup_numbered candidate 1 (used.size + 1)).length_le_of_subset hsub
  have hkeys : used.keys.length = used.size := List.length_map _
  rw [List.length_map, List.length_range', hkeys] at hlength
  omega

theorem firstFree_of_free {used : NameSet} {candidate : String}
    (h : used.contains candidate = false) : used.firstFree candidate = candidate := by
  simp [firstFree, h]

/-- A candidate in use gets the least positive suffix that is free. -/
theorem exists_firstFree_eq_numbered {used : NameSet} {candidate : String}
    (h : used.contains candidate = true) :
    ∃ n, 1 ≤ n ∧ used.firstFree candidate = numbered candidate n ∧
      used.contains (numbered candidate n) = false ∧
      ∀ k, 1 ≤ k → k < n → used.contains (numbered candidate k) = true := by
  rw [firstFree, if_pos h]
  cases hfind : (List.range' 1 (used.size + 1)).find?
      fun n => !used.contains (numbered candidate n) with
  | none =>
      obtain ⟨n, hn, hfree⟩ := exists_numbered_free used candidate
      have hused := List.find?_eq_none.1 hfind n hn
      simp [hfree] at hused
  | some n =>
      obtain ⟨hfree, front, back, hsplit, hfront⟩ := List.find?_eq_some_iff_append.1 hfind
      have hmem : n ∈ List.range' 1 (used.size + 1) := by simp [hsplit]
      refine ⟨n, (List.mem_range'_1.1 hmem).1, rfl, by simpa using hfree, fun k hk hkn => ?_⟩
      have hkmem : k ∈ front ++ n :: back := by
        rw [← hsplit, List.mem_range'_1]
        have := List.mem_range'_1.1 hmem
        omega
      have hsorted : (front ++ n :: back).Pairwise (· < ·) := hsplit ▸ List.pairwise_lt_range'
      rcases List.mem_append.1 hkmem with hkmem | hkmem
      · simpa using hfront k hkmem
      · have hback := (List.pairwise_append.1 hsorted).2.1
        rcases List.mem_cons.1 hkmem with rfl | hkmem
        · exact absurd hkn (Nat.lt_irrefl k)
        · have := (List.pairwise_cons.1 hback).1 k hkmem
          omega

theorem firstFree_eq_numbered {used : NameSet} {candidate : String} {n : Nat}
    (h : used.contains candidate = true) (hn : 1 ≤ n)
    (hfree : used.contains (numbered candidate n) = false)
    (hleast : ∀ k, 1 ≤ k → k < n → used.contains (numbered candidate k) = true) :
    used.firstFree candidate = numbered candidate n := by
  obtain ⟨m, hm, hname, hmfree, hmleast⟩ := exists_firstFree_eq_numbered h
  rcases Nat.lt_trichotomy m n with hlt | rfl | hgt
  · exact absurd (hleast m hm hlt) (by simp [hmfree])
  · exact hname
  · exact absurd (hmleast n hn hgt) (by simp [hfree])

/-- A claimed name is free. -/
theorem contains_firstFree (used : NameSet) (candidate : String) :
    used.contains (used.firstFree candidate) = false := by
  cases h : used.contains candidate with
  | false => rw [firstFree_of_free h, h]
  | true =>
      obtain ⟨n, _, hname, hfree, _⟩ := exists_firstFree_eq_numbered h
      rw [hname, hfree]

/-- Names more in the scope make no difference unless one is the name that would be claimed. -/
theorem firstFree_of_subset {used more : NameSet} {candidate : String}
    (hsub : ∀ name, used.contains name = true → more.contains name = true)
    (hfree : more.contains (used.firstFree candidate) = false) :
    more.firstFree candidate = used.firstFree candidate := by
  cases hused : used.contains candidate with
  | false =>
      rw [firstFree_of_free hused] at hfree ⊢
      exact firstFree_of_free hfree
  | true =>
      obtain ⟨n, hn, hname, _, hleast⟩ := exists_firstFree_eq_numbered hused
      rw [hname] at hfree ⊢
      exact firstFree_eq_numbered (hsub _ hused) hn hfree fun k hk hkn => hsub _ (hleast k hk hkn)

/-!
## The counter
-/

/-- The largest number of a 32-bit counter. -/
def lastSuffix : Nat := 2147483647

theorem le_lastSuffix {n : Int32} {k : Nat} (hn : n.toInt = k) : k ≤ lastSuffix :=
  Int.ofNat_le.1 (hn ▸ n.toInt_le)

theorem lt_lastSuffix_of_ne {n : Int32} {k : Nat} (hn : n.toInt = k) (hne : n ≠ Int32.maxValue) :
    k < lastSuffix := by
  refine Nat.lt_of_le_of_ne (le_lastSuffix hn) fun heq => hne (Int32.toInt_inj.1 ?_)
  rw [hn, heq]
  rfl

theorem toInt_one : (1 : Int32).toInt = (1 : Nat) := rfl

/-- Below its largest number the counter goes up by one. -/
theorem toInt_add_one {n : Int32} {k : Nat} (hn : n.toInt = k) (hlt : k < lastSuffix) :
    (n + 1).toInt = (k + 1 : Nat) := by
  have hbound : k < 2147483647 := hlt
  rw [Int32.toInt_add, hn, toInt_one, Int.bmod_eq_of_le] <;> omega

theorem toNatClampNeg_eq {n : Int32} {k : Nat} (hn : n.toInt = k) : n.toNatClampNeg = k := by
  rw [← Int32.toNat_toInt, hn, Int.toNat_natCast]

/-- A search that ends with a number has passed numbers in use and has come to a free one. -/
theorem of_freeSuffix?_eq_some {used : NameSet} {candidate : String} {rounds start : Nat}
    {n last : Int32} (hn : n.toInt = start)
    (h : freeSuffix? used candidate rounds n = some last) :
    start ≤ last.toNatClampNeg ∧ last.toNatClampNeg ≤ lastSuffix ∧
      used.contains (numbered candidate last.toNatClampNeg) = false ∧
      ∀ k, start ≤ k → k < last.toNatClampNeg → used.contains (numbered candidate k) = true := by
  induction rounds generalizing n start with
  | zero => cases h
  | succ rounds ih =>
      have hvalue := toNatClampNeg_eq hn
      rw [freeSuffix?, hvalue] at h
      split at h
      · rename_i hused
        split at h
        · cases h
        · rename_i hne
          have hlt := lt_lastSuffix_of_ne hn hne
          obtain ⟨hle, hlast, hfree, hall⟩ := ih (toInt_add_one hn hlt) h
          refine ⟨Nat.le_of_succ_le hle, hlast, hfree, fun k hk hkl => ?_⟩
          rcases Nat.lt_or_eq_of_le hk with hk | rfl
          · exact hall k hk hkl
          · exact hused
      · rename_i hfree
        cases h
        rw [hvalue]
        exact ⟨Nat.le_refl _, le_lastSuffix hn, by simpa using hfree,
          fun k hk hkl => absurd hk (Nat.not_le.2 hkl)⟩

/-- A search with enough rounds that ends without a number has seen all numbers in use. -/
theorem of_freeSuffix?_eq_none {used : NameSet} {candidate : String} {rounds start : Nat}
    {n : Int32} (hn : n.toInt = start) (hrounds : lastSuffix < start + rounds)
    (h : freeSuffix? used candidate rounds n = none) :
    ∀ k, start ≤ k → k ≤ lastSuffix → used.contains (numbered candidate k) = true := by
  induction rounds generalizing n start with
  | zero =>
      intro k hk hlast
      omega
  | succ rounds ih =>
      rw [freeSuffix?, toNatClampNeg_eq hn] at h
      split at h
      · rename_i hused
        intro k hk hlast
        rcases Nat.lt_or_eq_of_le hk with hk | rfl
        · split at h
          · rename_i hmax
            have hstart : (start : Int) = lastSuffix := by rw [← hn, hmax]; rfl
            omega
          · rename_i hne
            exact ih (toInt_add_one hn (lt_lastSuffix_of_ne hn hne)) (by omega) h k hk hlast
        · exact hused
      · cases h

/-- The candidate and all its suffixes up to the largest number of the counter are in use. -/
structure Exhausted (used : NameSet) (candidate : String) : Prop where
  itself : used.contains candidate = true
  suffixes : ∀ n, 1 ≤ n → n ≤ lastSuffix → used.contains (numbered candidate n) = true

/-- What the search finds is the free name and adds it. -/
theorem disambiguate?_eq_some {used after : NameSet} {candidate name : String}
    (h : used.disambiguate? candidate = some (name, after)) :
    name = used.firstFree candidate ∧ after = used.add (used.firstFree candidate) := by
  rw [disambiguate?] at h
  split at h
  · rename_i hused
    obtain ⟨n, hn, hname⟩ := Option.map_eq_some_iff.1 h
    obtain ⟨hone, _, hfree, hleast⟩ := of_freeSuffix?_eq_some toInt_one hn
    cases hname
    rw [firstFree_eq_numbered hused hone hfree hleast]
    exact ⟨rfl, rfl⟩
  · rename_i hfree
    cases h
    rw [firstFree_of_free (by simpa using hfree)]
    exact ⟨rfl, rfl⟩

/-- The counter overflows just where the candidate is exhausted. -/
theorem disambiguate?_eq_none_iff {used : NameSet} {candidate : String} :
    used.disambiguate? candidate = none ↔ used.Exhausted candidate := by
  rw [disambiguate?]
  constructor
  · intro h
    split at h
    · rename_i hused
      exact ⟨hused, of_freeSuffix?_eq_none toInt_one (by decide)
        (Option.map_eq_none_iff.1 h)⟩
    · cases h
  · rintro ⟨hused, hall⟩
    rw [if_pos hused, Option.map_eq_none_iff]
    cases hsearch : freeSuffix? used candidate 2147483648 1 with
    | none => rfl
    | some n =>
        obtain ⟨hone, hlast, hfree, _⟩ := of_freeSuffix?_eq_some toInt_one hsearch
        rw [hall _ hone hlast] at hfree
        cases hfree

theorem claim_eq (used : NameSet) (candidate : String) :
    used.claim candidate = (used.firstFree candidate, used.add (used.firstFree candidate)) := by
  rw [claim]
  cases h : used.disambiguate? candidate with
  | none => rfl
  | some found =>
      obtain ⟨name, after⟩ := found
      obtain ⟨rfl, rfl⟩ := disambiguate?_eq_some h
      rfl

/-!
## Claims in turn
-/

/-- The names that candidates get one after the other. -/
def claimAll (used : NameSet) : List String → List String
  | [] => []
  | candidate :: rest =>
    let name := used.firstFree candidate
    name :: claimAll (used.add name) rest

def addAll (used : NameSet) (names : List String) : NameSet := names.foldl add used

@[simp] theorem claimAll_nil (used : NameSet) : used.claimAll [] = [] := rfl

theorem claimAll_cons (used : NameSet) (candidate : String) (rest : List String) :
    used.claimAll (candidate :: rest) =
      used.firstFree candidate :: (used.add (used.firstFree candidate)).claimAll rest := rfl

@[simp] theorem length_claimAll (used : NameSet) (candidates : List String) :
    (used.claimAll candidates).length = candidates.length := by
  induction candidates generalizing used with
  | nil => rfl
  | cons candidate rest ih => simp [claimAll_cons, ih]

theorem contains_of_mem_claimAll {used : NameSet} {candidates : List String} {name : String}
    (h : name ∈ used.claimAll candidates) : used.contains name = false := by
  induction candidates generalizing used with
  | nil => simp at h
  | cons candidate rest ih =>
      rcases List.mem_cons.1 h with rfl | h
      · exact contains_firstFree used candidate
      · have hnot := ih h
        rw [contains_add, Bool.or_eq_false_iff] at hnot
        exact hnot.2

theorem nodup_claimAll (used : NameSet) (candidates : List String) :
    (used.claimAll candidates).Nodup := by
  induction candidates generalizing used with
  | nil => exact List.nodup_nil
  | cons candidate rest ih =>
      refine List.nodup_cons.2 ⟨fun hmem => ?_, ih _⟩
      have hnot := contains_of_mem_claimAll hmem
      simp at hnot

theorem contains_addAll (used : NameSet) (names : List String) (name : String) :
    (used.addAll names).contains name = (decide (name ∈ names) || used.contains name) := by
  induction names generalizing used with
  | nil => simp [addAll]
  | cons head tail ih =>
      change ((used.add head).addAll tail).contains name = _
      rw [ih, contains_add]
      by_cases h : name = head <;> simp [h]

end NameSet

end YangToProto

import YangToProto.Proofs.Proto.LegalNames

/-!
# Claiming names

A name in use gets a suffix that a 32-bit counter counts up from one until the name with it is free.
The suffixes that are passed give different names in use, as many as the counter has gone through
(`NameSet.le_size_of_used`). So the search ends after at most as many rounds as there are names, and
with fewer than `2 ^ 31` names in use the counter does not overflow. It finds the least free suffix
and adds just this name, and names found in turn are different from each other and from those that
were there before (`NameSet.disambiguates`).
-/

namespace YangToProto

namespace NameSet

open Identifier

variable {used after : NameSet} {candidate name : String} {names candidates : List String} {n : Nat}

/-! ## One name -/

theorem le_size_of_used (h : used.contains candidate = true)
    (hused : ∀ k, 1 ≤ k → k < n → used.contains (numbered candidate k) = true) :
    n ≤ used.size := by
  have hnot : candidate ∉ (List.range' 1 (n - 1)).map (numbered candidate) := by
    intro hmem
    obtain ⟨k, _, heq⟩ := List.mem_map.1 hmem
    exact numbered_ne_self candidate k heq
  have hsub : candidate :: (List.range' 1 (n - 1)).map (numbered candidate) ⊆ used.keys := by
    intro name hname
    rw [SortedMap.mem_keys_iff]
    rcases List.mem_cons.1 hname with rfl | hname
    · exact h
    · obtain ⟨k, hk, rfl⟩ := List.mem_map.1 hname
      rw [List.mem_range'_1] at hk
      exact hused k hk.1 (by omega)
  have hnodup := List.nodup_cons.2 ⟨hnot, nodup_numbered candidate 1 (n - 1)⟩
  have hlength := hnodup.length_le_of_subset hsub
  have hkeys : used.keys.length = used.size := List.length_map _
  rw [List.length_cons, List.length_map, List.length_range', hkeys] at hlength
  omega

theorem Exhausted.le_size (h : used.Exhausted candidate) : 2 ^ 31 ≤ used.size :=
  le_size_of_used h.itself fun k hk hlt => h.suffixes k hk (Nat.le_of_lt_succ hlt)

/-- Where fewer names are in use than the counter has numbers, some name is found. -/
theorem exists_disambiguate? (hsize : used.size < 2 ^ 31) (candidate : String) :
    ∃ found, used.disambiguate? candidate = some found := by
  refine Option.ne_none_iff_exists'.1 fun hnone => ?_
  exact absurd (disambiguate?_eq_none_iff.1 hnone).le_size (Nat.not_le.2 hsize)

/-- A name is found as the candidate if it is free, and with the least free suffix otherwise. It was
not in use, and afterwards it is, and nothing else besides what was. -/
structure Found (used : NameSet) (candidate name : String) (after : NameSet) : Prop where
  least : used.contains candidate = false ∧ name = candidate ∨
    used.contains candidate = true ∧ ∃ n, 1 ≤ n ∧ n ≤ used.size ∧ n ≤ lastSuffix ∧
      name = numbered candidate n ∧
      ∀ k, 1 ≤ k → k < n → used.contains (numbered candidate k) = true
  free : used.contains name = false
  added : ∀ other, after.contains other = true ↔ other = name ∨ used.contains other = true

theorem found_of_disambiguate? (h : used.disambiguate? candidate = some (name, after)) :
    used.Found candidate name after := by
  obtain ⟨rfl, rfl⟩ := disambiguate?_eq_some h
  refine ⟨?_, contains_firstFree used candidate, fun other => ?_⟩
  · cases hused : used.contains candidate with
    | false => exact .inl ⟨rfl, firstFree_of_free hused⟩
    | true =>
        obtain ⟨n, hn, hname, hfree, hleast⟩ := exists_firstFree_eq_numbered hused
        refine .inr ⟨rfl, n, hn, le_size_of_used hused hleast, ?_, hname, hleast⟩
        -- otherwise the counter would have overflowed
        by_contra hlast
        have hexhausted : used.Exhausted candidate :=
          ⟨hused, fun k hk hkl => hleast k hk (Nat.lt_of_le_of_lt hkl (Nat.not_le.1 hlast))⟩
        rw [disambiguate?_eq_none_iff.2 hexhausted] at h
        cases h
  · rw [contains_add, Bool.or_eq_true, decide_eq_true_iff]

/-! ## Names in turn -/

/-- Finds names for candidates one after the other. -/
def disambiguateEach (candidates : List String) : StateT NameSet Option (List String) :=
  candidates.mapM fun candidate used => used.disambiguate? candidate

theorem disambiguateEach_cons (used : NameSet) (candidate : String) (rest : List String) :
    disambiguateEach (candidate :: rest) used =
      (used.disambiguate? candidate).bind fun found =>
        (disambiguateEach rest found.2).map fun others => (found.1 :: others.1, others.2) := by
  rw [disambiguateEach, List.mapM_cons]
  change (used.disambiguate? candidate).bind _ = _
  congr 1
  funext found
  change (disambiguateEach rest found.2).bind _ = _
  cases disambiguateEach rest found.2 <;> rfl

theorem of_disambiguateEach (h : disambiguateEach candidates used = some (names, after)) :
    names = used.claimAll candidates ∧ after = used.addAll names := by
  induction candidates generalizing used names with
  | nil =>
      cases h
      exact ⟨rfl, rfl⟩
  | cons candidate rest ih =>
      rw [disambiguateEach_cons] at h
      obtain ⟨⟨name, middle⟩, hname, hrest⟩ := Option.bind_eq_some_iff.1 h
      obtain ⟨⟨others, last⟩, hothers, heq⟩ := Option.map_eq_some_iff.1 hrest
      cases heq
      obtain ⟨rfl, rfl⟩ := disambiguate?_eq_some hname
      obtain ⟨rfl, rfl⟩ := ih hothers
      exact ⟨rfl, rfl⟩

theorem exists_disambiguateEach (hsize : used.size + candidates.length ≤ 2 ^ 31) :
    ∃ names after, disambiguateEach candidates used = some (names, after) := by
  induction candidates generalizing used with
  | nil => exact ⟨[], used, rfl⟩
  | cons candidate rest ih =>
      rw [List.length_cons] at hsize
      have hroom : used.size < 2 ^ 31 := by omega
      obtain ⟨⟨name, middle⟩, hname⟩ := exists_disambiguate? hroom candidate
      obtain ⟨rfl, rfl⟩ := disambiguate?_eq_some hname
      have hmiddle := size_add (contains_firstFree used candidate)
      have hroom' : (used.add (used.firstFree candidate)).size + rest.length ≤ 2 ^ 31 := by omega
      obtain ⟨others, after, hothers⟩ := ih hroom'
      refine ⟨used.firstFree candidate :: others, after, ?_⟩
      rw [disambiguateEach_cons, hname, Option.bind_some, hothers]
      rfl

example : (disambiguateEach ["name", "other", "name"] (ofNames ["name", "name_1", "name_3"])).map
    Prod.fst = some ["name_2", "other", "name_4"] := by decide

end NameSet

end YangToProto

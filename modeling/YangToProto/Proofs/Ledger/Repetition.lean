import YangToProto.Proofs.Collection.Entries
import YangToProto.Proofs.Ledger.Assign

/-!
# Assigning tags again

An assignment made again in the ledger that it has left gives the same tags, or the same error, and
changes nothing (`Ledger.assign_again`). That holds also where the tags have run out half-way: the
tags recorded until then stay recorded, and there are still none left. What counts is only the
record of the message itself (`Ledger.assign_eq_of_find?`).
-/

namespace YangToProto

open Std

namespace SortedMap

variable {κ α : Type} [Ord κ]

theorem insert_of_find? [TransOrd κ] [LawfulEqOrd κ] [DecidableEq κ] {m : SortedMap κ α} {key : κ}
    {x : α} (h : m.find? key = some x) : m.insert key x = m := by
  refine ext_find? fun other => ?_
  rw [find?_insert]
  split
  · rename_i heq
    exact heq ▸ h.symm
  · rfl

end SortedMap

namespace Tag

theorem next?_eq_none_iff {highest : UInt32} :
    next? highest = none ↔ maximum ≤ highest.toNat := by
  by_cases hreserved : reservedStart ≤ highest.toNat + 1 ∧ highest.toNat + 1 ≤ reservedEnd
  · have hlow : highest.toNat < maximum := Nat.lt_of_lt_of_le hreserved.2 (by decide)
    have hfits : reservedEnd + 1 ≤ maximum := by decide
    simp only [next?, if_pos hreserved, if_pos hfits]
    simpa using hlow
  · simp only [next?, if_neg hreserved, ite_eq_right_iff, reduceCtorEq, imp_false, Nat.not_le,
      Nat.lt_succ_iff]

/-- Where there is no next tag, there is none behind a higher tag either. -/
theorem next?_eq_none_of_le {highest later : UInt32} (h : next? highest = none)
    (hle : highest ≤ later) : next? later = none :=
  next?_eq_none_iff.2 (Nat.le_trans (next?_eq_none_iff.1 h) (UInt32.le_iff_toNat_le.1 hle))

end Tag

namespace FieldTags

theorem assign_again (fields : List String) {known : FieldTags} {highest : UInt32}
    (hb : Bounded known highest) (hle : highest ≤ known.highest) :
    assign (assign highest known fields).2.highest (assign highest known fields).2 fields =
      assign highest known fields := by
  induction fields generalizing known highest with
  | nil => rfl
  | cons field rest ih =>
      cases hk : known.find? field with
      | some tag =>
          have hagain := ih hb hle
          have hkept := (extends_assign rest hb).kept hk
          simp only [assign, hk, hkept, hagain]
      | none =>
          cases hn : Tag.next? highest with
          | none =>
              have hnone := Tag.next?_eq_none_of_le hn hle
              simp only [assign, hk, hn, hnone]
          | some tag =>
              have hb' := hb.insert hn field
              have hfound := known.find?_insert_self field tag
              have hagain := ih hb' (bounded_highest _ field tag hfound)
              have hkept := (extends_assign rest hb').kept hfound
              simp only [assign, hk, hn, hkept, hagain]

end FieldTags

namespace Ledger

variable {ledger later : Ledger} {path : String} {fields : List String}

theorem assign_again (ledger : Ledger) (path : String) (fields : List String) :
    (ledger.assign path fields).2.assign path fields = ledger.assign path fields := by
  have hagain := FieldTags.assign_again fields (ledger.fieldTags path).bounded_highest
    (UInt32.le_refl _)
  rw [assign_eq (ledger.assign path fields).2, fieldTags_assign, if_pos rfl, hagain, assign_eq]
  simp only [SortedMap.insert_of_find? (SortedMap.find?_insert_self _ _ _)]

/-- An assignment that changes nothing changes nothing in any ledger with the same record of the
message, and has the same outcome there. -/
theorem assign_eq_of_find? {outcome : Except GenerationError (List UInt32)}
    (h : ledger.assign path fields = (outcome, ledger))
    (hsame : later.messages.find? path = ledger.messages.find? path) :
    later.assign path fields = (outcome, later) := by
  have htags : later.fieldTags path = ledger.fieldTags path := by rw [fieldTags, fieldTags, hsame]
  rw [assign_eq, Prod.mk.injEq] at h
  obtain ⟨rfl, hrecorded⟩ := h
  have hfound : later.messages.find? path =
      some ((ledger.fieldTags path).assign (ledger.fieldTags path).highest fields).2 := by
    rw [hsame, ← congrArg Ledger.messages hrecorded]
    exact SortedMap.find?_insert_self _ _ _
  rw [assign_eq, htags]
  simp only [SortedMap.insert_of_find? hfound]

theorem find?_assign_of_ne {other : String} (h : other ≠ path) (ledger : Ledger)
    (fields : List String) :
    (ledger.assign path fields).2.messages.find? other = ledger.messages.find? other := by
  rw [assign_eq]
  exact SortedMap.find?_insert_ne _ _ h

end Ledger

end YangToProto

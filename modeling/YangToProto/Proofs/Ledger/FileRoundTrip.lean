import YangToProto.Generation.LedgerFile
import YangToProto.Proofs.Collection.Entries
import YangToProto.Proofs.Json.Values

/-!
# Ledger files are read back

A ledger is read back from the text of its file, whatever its paths, field names and tags are
(`Ledger.read_write`). The reader follows the text, in whatever layout: an object of messages, in
which each message is an object of tags.
-/

namespace YangToProto

namespace Ledger

open Scan
open Json (Layout)

theorem takes_scanTag (tag : UInt32) : Takes scanTag (toString tag.toNat).toList tag := by
  intro blanks rest hblanks hrest
  have hfits : tag.toNat ≤ largestWord := Nat.le_of_lt (Nat.lt_trans tag.toNat_lt (by decide))
  have htag : 0 ≤ (tag.toNat : Int) ∧ (tag.toNat : Int) < UInt32.size :=
    ⟨Int.natCast_nonneg _, Int.ofNat_lt.2 tag.toNat_lt⟩
  have hread := number_toString hfits hrest
  obtain ⟨c, more, htext, hdigit⟩ := exists_digit_toDigits tag.toNat
  rw [Nat.toString_eq_ofList_toDigits, String.toList_ofList, htext, List.cons_append] at hread ⊢
  rw [scanTag, bind_of_ok (peek_blanks hblanks (isSpace_of_isDigit hdigit))]
  dsimp only
  rw [if_pos (by simp [hdigit]), bind_of_ok hread]
  dsimp only
  rw [if_pos htag, Int.toNat_natCast, UInt32.ofNat_toNat]
  rfl

variable {α : Type} {layout : Layout} {rounds depth level : Nat}

/-- Takes what stands behind the name of a map's member. -/
def scanEntry (value : Nat → Scan α) (depth : Nat) (name : String) (found : SortedMap String α) :
    Scan (SortedMap String α) := do
  Scan.colon
  return found.insert name (← value depth)

theorem scanMap_eq (rounds depth : Nat) (value : Nat → Scan α) :
    scanMap rounds depth value = expectMembers "a map" rounds depth (scanEntry value) ∅ := rfl

theorem gathers_entries {value : Nat → Scan α} {form : α → Json} (entries : List (String × α))
    (hvalue : ∀ entry ∈ entries, Takes (value depth) (layout.text level (form entry.2)) entry.2)
    (found : SortedMap String α) :
    Gathers (scanEntry value depth) found
      ((entries.map fun entry => (entry.1, form entry.2)).map (layout.member level))
      (entries.foldl (fun found entry => found.insert entry.1 entry.2) found) := by
  induction entries generalizing found with
  | nil => exact .nil
  | cons entry rest ih =>
      obtain ⟨hentry, hmore⟩ := List.forall_mem_cons.1 hvalue
      have hrest := ih hmore (found.insert entry.1 entry.2)
      exact .cons (takes_behind_colon layout.blank_space (hentry.map (found.insert entry.1))) hrest

/-- A map is read back from its object if its values are read back. -/
theorem takes_scanMap {value : Nat → Scan α} (form : α → Json) {m : SortedMap String α}
    (hvalue : ∀ entry ∈ m.entries,
      Takes (value depth) (layout.text (level + 1) (form entry.2)) entry.2)
    (hrounds : (layout.text level (.object (m.entries.map fun entry =>
      (entry.1, form entry.2)))).length ≤ rounds) :
    Takes (scanMap rounds (depth + 1) value)
      (layout.text level (.object (m.entries.map fun entry => (entry.1, form entry.2)))) m := by
  have hgathers := gathers_entries m.entries hvalue ∅
  rw [SortedMap.foldl_insert_entries] at hgathers
  rw [scanMap_eq]
  exact takes_expectMembers (scanEntry value) hgathers hrounds "a map"

theorem tagsToJson_eq (tags : FieldTags) :
    tagsToJson tags = .object (tags.entries.map fun entry => (entry.1, .ofInt entry.2.toNat)) := rfl

theorem takes_tags {tags : FieldTags}
    (hrounds : (layout.text level (tagsToJson tags)).length ≤ rounds) :
    Takes (scanMap rounds (depth + 1) fun _ => scanTag) (layout.text level (tagsToJson tags))
      tags := by
  rw [tagsToJson_eq] at hrounds ⊢
  exact takes_scanMap (fun tag : UInt32 => .ofInt tag.toNat)
    (fun entry _ => takes_scanTag entry.2) hrounds

def messagesToJson (messages : SortedMap String FieldTags) : Json :=
  .object (messages.entries.map fun entry => (entry.1, tagsToJson entry.2))

theorem takes_messages {messages : SortedMap String FieldTags}
    (hrounds : (layout.text level (messagesToJson messages)).length ≤ rounds) :
    Takes (scanMessages rounds (depth + 2)) (layout.text level (messagesToJson messages))
      messages := by
  refine takes_scanMap tagsToJson (fun entry hentry => takes_tags ?_) hrounds
  have hmem : (entry.1, tagsToJson entry.2) ∈
      messages.entries.map fun entry => (entry.1, tagsToJson entry.2) :=
    List.mem_map_of_mem hentry
  have hmember := layout.length_member_lt hmem level
  exact Nat.le_trans (Nat.le_of_lt hmember) hrounds

/-- Takes what stands behind the name of a member of a ledger. -/
def scanMember (rounds depth : Nat) (name : String)
    (known : Option (SortedMap String FieldTags)) : Scan (Option (SortedMap String FieldTags)) := do
  if name == "messages" then Scan.once "messages" known (scanMessages rounds depth)
  else
    Scan.skipMember rounds
    return known

theorem toJson_eq (ledger : Ledger) :
    ledger.toJson = .object [("messages", messagesToJson ledger.messages)] := rfl

theorem length_messages_lt (layout : Layout) (ledger : Ledger) (level : Nat) :
    (layout.text (level + 1) (messagesToJson ledger.messages)).length <
      (layout.text level ledger.toJson).length :=
  layout.length_member_lt
    (List.mem_singleton_self ("messages", messagesToJson ledger.messages)) level

theorem takes_scan (ledger : Ledger)
    (hrounds : (layout.text level ledger.toJson).length ≤ rounds) :
    Takes (scan rounds (depth + 3)) (layout.text level ledger.toJson) ledger := by
  have hmessages : Takes (scanMessages rounds (depth + 2)) _ _ :=
    takes_messages (Nat.le_trans (Nat.le_of_lt (length_messages_lt layout ledger level)) hrounds)
  have hmember : Takes (scanMember rounds (depth + 2) "messages" none)
      (layout.member (level + 1) ("messages", messagesToJson ledger.messages)).2
      (some ledger.messages) := takes_once hmessages "messages"
  rw [toJson_eq] at hrounds ⊢
  have hobject := takes_expectMembers (scanMember rounds) (.cons hmember .nil) hrounds
    "struct TagLedger"
  intro blanks rest hblanks hrest
  have hread := hobject [] rest blank_nil hrest
  rw [layout.text_object] at hread ⊢
  rw [scan, List.cons_append, bind_of_ok (peek_blanks hblanks rfl)]
  dsimp only
  exact map_of_ok hread

/-- A ledger is read back from its file. -/
theorem read_write (ledger : Ledger) : read ledger.write = .ok ledger := by
  have htext : ledger.write.toList = Layout.indented.text 0 ledger.toJson ++ ['\n'] := by
    simp [write, Layout.text_indented]
  have hlength : (Layout.indented.text 0 ledger.toJson).length ≤ ledger.write.toList.length := by
    rw [htext, List.length_append]
    exact Nat.le_add_right _ _
  have htakes : Takes (scan ledger.write.toList.length maximumDepth) _ ledger :=
    takes_scan ledger hlength
  have hends : Ends ['\n'] := by simp [Ends]
  have hread := htakes.apply hends
  rw [← htext] at hread
  rw [read, run]
  simp only [hread]
  rfl

end Ledger

end YangToProto

import YangToProto.Proofs.Json.Skipping
import YangToProto.Proofs.Ledger.FileRoundTrip
import YangToProto.Proofs.Schema.NodeForms

/-!
# A ledger is no schema

The file of a ledger is an object with one member, which a reader of schemas skips. Then it misses
the name of a node (`Ledger.read_node_write`).
-/

namespace YangToProto

open Scan
open Json (Layout)

namespace Ledger

theorem skips_messages (messages : SortedMap String FieldTags) (level : Nat) :
    Skips (Layout.indented.text level (messagesToJson messages)) := by
  refine skips_indented_object fun message hmessage => ?_
  obtain ⟨⟨path, tags⟩, _, rfl⟩ := List.mem_map.1 hmessage
  refine skips_indented_object fun tag htag => ?_
  obtain ⟨⟨name, number⟩, _, rfl⟩ := List.mem_map.1 htag
  exact skips_number number.toNat

variable {rounds depth level : Nat}

/-- A reader of nodes skips the messages. -/
theorem takes_messages_of_node {messages : SortedMap String FieldTags}
    (hrounds : (Layout.indented.text level (messagesToJson messages)).length ≤ rounds)
    (depth : Nat) (child : Scan Node) (known : Node.Partial) :
    Takes (Node.Partial.scan rounds depth child "messages" known)
      (Layout.indented.member level ("messages", messagesToJson messages)).2 known := by
  have hskip : Takes (skipValue (2 * rounds + 2))
      (Layout.indented.text level (messagesToJson messages)) () := fun blanks rest hblanks hrest =>
    skips_messages messages level (by omega) hblanks hrest
  exact (takes_behind_colon Layout.indented.blank_space hskip).map fun _ => known

theorem scan_node_indented {ledger : Ledger}
    (hrounds : (Layout.indented.text level ledger.toJson).length ≤ rounds) (rest : List Char) :
    Node.scan rounds (depth + 1) (Layout.indented.text level ledger.toJson ++ rest) =
      .error (.misfit (.missingField "name")) := by
  have hlength := length_messages_lt .indented ledger level
  have hcount := Layout.indented.length_members_lt level
    [("messages", messagesToJson ledger.messages)]
  have hmember := takes_messages_of_node (Nat.le_trans (Nat.le_of_lt hlength) hrounds) depth
    (Node.scanChild rounds depth) {}
  have hmembers := members_items (Layout.indented.blank_line (level + 1))
    (Layout.indented.blank_line level) (.cons hmember .nil) (Nat.lt_of_lt_of_le hcount hrounds) rest
  rw [toJson_eq, Layout.text_object, Node.scan_succ, List.cons_append, bind_of_ok (peek_cons rfl _)]
  change (advance >>= fun _ => members _ true ({} : Node.Partial) rounds >>= _) _ = _
  rw [bind_of_ok (advance_cons _ _)]
  exact bind_of_ok hmembers

/-- What the reader of a node makes of the file of a ledger. -/
theorem read_node_write (ledger : Ledger) :
    Node.read ledger.write = .error (.misfit (.missingField "name")) := by
  have htext : ledger.write.toList = Layout.indented.text 0 ledger.toJson ++ ['\n'] := by
    simp [write, Layout.text_indented]
  have hrounds : (Layout.indented.text 0 ledger.toJson).length ≤ ledger.write.toList.length := by
    rw [htext, List.length_append]
    exact Nat.le_add_right _ _
  have hscan : Node.scan ledger.write.toList.length maximumDepth ledger.write.toList =
      .error (.misfit (.missingField "name")) := by
    rw [htext] at hrounds ⊢
    exact scan_node_indented hrounds ['\n']
  simp only [Node.read, run, hscan, bind, Except.bind]

end Ledger

end YangToProto

import YangToProto.Text.Segments

/-!
# Pieces of a text

A separator parts a text into the pieces on both sides of it, and a suffix without a separator goes
to the last piece.
-/

namespace YangToProto.Segments

theorem split_append_cons (sep : Char) (text rest : List Char) :
    split sep (text ++ sep :: rest) = split sep text ++ split sep rest := by
  induction text with
  | nil => simp [split]
  | cons c more ih =>
      rw [List.cons_append, split, split, ih]
      split
      · rfl
      · cases hsplit : split sep more with
        | nil => exact absurd hsplit (split_ne_nil sep more)
        | cons piece pieces => rfl

/-- What stands in front of the first separator comes back from a text, and so does the rest. -/
theorem eq_of_append_cons {sep : Char} {piece other rest more : List Char} (h : sep ∉ piece)
    (h' : sep ∉ other) (heq : piece ++ sep :: rest = other ++ sep :: more) :
    piece = other ∧ rest = more := by
  have hpieces := congrArg (split sep) heq
  rw [split_append h, split_append h', List.cons.injEq] at hpieces
  exact ⟨hpieces.1, by rw [← join_split sep rest, hpieces.2, join_split]⟩

theorem sep_notMem_split {sep : Char} {text : List Char} :
    ∀ piece ∈ split sep text, sep ∉ piece := by
  induction text with
  | nil => simp [split]
  | cons c more ih =>
      rw [split]
      split
      · simpa using ih
      · rename_i hc
        cases hsplit : split sep more with
        | nil => exact absurd hsplit (split_ne_nil sep more)
        | cons piece pieces =>
            rw [hsplit] at ih
            intro other hother
            rcases List.mem_cons.1 hother with rfl | hrest
            · simp only [List.mem_cons, not_or]
              exact ⟨fun heq => hc heq.symm, ih piece List.mem_cons_self⟩
            · exact ih other (List.mem_cons_of_mem _ hrest)

theorem ofString_injective {sep : Char} {text other : String}
    (h : ofString sep text = ofString sep other) : text = other := by
  have hpieces : split sep text.toList = split sep other.toList := by
    have hmap := congrArg (List.map String.toList) h
    simpa [ofString, Function.comp_def] using hmap
  rw [← String.toList_inj, ← join_split sep text.toList, hpieces, join_split]

theorem exists_mem_of_mem_join {sep c : Char} (hc : c ≠ sep) {pieces : List (List Char)}
    (h : c ∈ join sep pieces) : ∃ piece ∈ pieces, c ∈ piece := by
  induction pieces with
  | nil => exact absurd h List.not_mem_nil
  | cons piece rest ih =>
      cases rest with
      | nil => exact ⟨piece, List.mem_cons_self, h⟩
      | cons next more =>
          rw [join, List.mem_append, List.mem_cons] at h
          · rcases h with h | h | h
            · exact ⟨piece, List.mem_cons_self, h⟩
            · exact absurd h hc
            · obtain ⟨other, hother, hmem⟩ := ih h
              exact ⟨other, List.mem_cons_of_mem _ hother, hmem⟩
          · simp

theorem exists_mem_split {sep c : Char} (hc : c ≠ sep) {text : List Char} (h : c ∈ text) :
    ∃ piece ∈ split sep text, c ∈ piece :=
  exists_mem_of_mem_join hc (by rwa [join_split])

theorem ofString_toString {sep : Char} {pieces : List String} (hne : pieces ≠ [])
    (h : ∀ piece ∈ pieces, sep ∉ piece.toList) : ofString sep (toString sep pieces) = pieces := by
  have hsplit : split sep (join sep (pieces.map String.toList)) = pieces.map String.toList :=
    split_join (by simpa using hne) (by simpa using h)
  rw [ofString, toString, String.toList_ofList, hsplit, List.map_map]
  simp [Function.comp_def]

/-- Pieces without the separator come back from the text that they make. -/
theorem toString_injective {sep : Char} {pieces others : List String} (hne : pieces ≠ [])
    (hne' : others ≠ []) (h : ∀ piece ∈ pieces, sep ∉ piece.toList)
    (h' : ∀ piece ∈ others, sep ∉ piece.toList)
    (heq : toString sep pieces = toString sep others) : pieces = others := by
  rw [← ofString_toString hne h, heq, ofString_toString hne' h']

theorem split_append_suffix {sep : Char} {suffix : List Char} (h : sep ∉ suffix)
    (text : List Char) :
    ∃ init last, split sep text = init ++ [last] ∧
      split sep (text ++ suffix) = init ++ [last ++ suffix] := by
  induction text with
  | nil => exact ⟨[], [], rfl, split_of_not_mem h⟩
  | cons c more ih =>
      obtain ⟨init, last, htext, hsuffix⟩ := ih
      rw [List.cons_append, split, split, htext, hsuffix]
      split
      · exact ⟨[] :: init, last, rfl, rfl⟩
      · cases init with
        | nil => exact ⟨[], c :: last, rfl, rfl⟩
        | cons piece pieces => exact ⟨(c :: piece) :: pieces, last, rfl, rfl⟩

end YangToProto.Segments

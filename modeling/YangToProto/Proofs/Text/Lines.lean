import YangToProto.Proofs.Text.Segments

/-!
# Texts in lines

A text is made of lines with a line break behind each of them. Lines that hold no line break come
back from it (`Text.unlines_injective`), and lines up to a closing one tell what they were written
for if each of them does (`Text.eq_of_map_append_cons`).
-/

namespace YangToProto

namespace Text

def unlines (lines : List String) : String := String.join (lines.map (· ++ "\n"))

theorem unlines_nil : unlines [] = "" := rfl

theorem unlines_cons (line : String) (rest : List String) :
    unlines (line :: rest) = line ++ "\n" ++ unlines rest := by
  rw [← String.toList_inj]
  simp [unlines]

theorem toList_unlines_cons (line : String) (rest : List String) :
    (unlines (line :: rest)).toList = line.toList ++ '\n' :: (unlines rest).toList := by
  simp [unlines]

theorem unlines_append (lines more : List String) :
    unlines (lines ++ more) = unlines lines ++ unlines more := by
  rw [← String.toList_inj]
  simp [unlines]

theorem unlines_flatMap {α : Type} (items : List α) (lines : α → List String) :
    unlines (items.flatMap lines) = String.join (items.map fun item => unlines (lines item)) := by
  induction items with
  | nil => rfl
  | cons item rest ih =>
      rw [List.flatMap_cons, unlines_append, ih, ← String.toList_inj]
      simp

/-- Lines without line breaks come back from their text. -/
theorem unlines_injective {lines more : List String} (h : ∀ line ∈ lines, '\n' ∉ line.toList)
    (h' : ∀ line ∈ more, '\n' ∉ line.toList) (heq : unlines lines = unlines more) :
    lines = more := by
  induction lines generalizing more with
  | nil =>
      cases more with
      | nil => rfl
      | cons line rest =>
          have hchars := congrArg String.toList heq
          rw [toList_unlines_cons] at hchars
          simp [unlines] at hchars
  | cons line rest ih =>
      cases more with
      | nil =>
          have hchars := congrArg String.toList heq
          rw [toList_unlines_cons] at hchars
          simp [unlines] at hchars
      | cons other more =>
          have hchars := congrArg String.toList heq
          rw [toList_unlines_cons, toList_unlines_cons] at hchars
          obtain ⟨hline, hrest⟩ := Segments.eq_of_append_cons (h line List.mem_cons_self)
            (h' other List.mem_cons_self) hchars
          rw [String.toList_inj] at hline hrest
          rw [hline, ih (fun line hl => h line (List.mem_cons_of_mem _ hl))
            (fun line hl => h' line (List.mem_cons_of_mem _ hl)) hrest]

/-- Lines up to a closing one tell what they were written for. -/
theorem eq_of_map_append_cons {α : Type} {line : α → String} {closing : String}
    {items others : List α} {rest more : List String}
    (hclosing : ∀ item ∈ items ++ others, line item ≠ closing)
    (hline : ∀ item ∈ items, ∀ other ∈ others, line item = line other → item = other)
    (heq : items.map line ++ closing :: rest = others.map line ++ closing :: more) :
    items = others ∧ rest = more := by
  induction items generalizing others with
  | nil =>
      cases others with
      | nil => exact ⟨rfl, (List.cons.inj heq).2⟩
      | cons other others =>
          exact absurd (List.cons.inj heq).1.symm (hclosing other (by simp))
  | cons item items ih =>
      cases others with
      | nil => exact absurd (List.cons.inj heq).1 (hclosing item (by simp))
      | cons other others =>
          obtain ⟨hfirst, hrest⟩ := List.cons.inj heq
          obtain rfl := hline item List.mem_cons_self other List.mem_cons_self hfirst
          obtain ⟨rfl, hmore⟩ := ih (fun one hone => hclosing one (by grind))
            (fun one hone other hother => hline one (List.mem_cons_of_mem _ hone) other
              (List.mem_cons_of_mem _ hother)) hrest
          exact ⟨rfl, hmore⟩

end Text

end YangToProto

import Mathlib.Data.List.Forall2
import YangToProto.Collection.SortedMap

/-!
# Lists and maps in step

Two lists are in step when they are as long as one another and a relation holds between their items
in turn (`List.Forall₂`). What one of them has an item for, the other has one for too. Two maps are
in step when they have the same keys and a relation holds between the values (`SortedMap.InStep`).
-/

namespace YangToProto

variable {α β γ : Type} {R : α → β → Prop} {S : β → γ → Prop} {left : List α} {middle : List β}
  {right : List γ}

theorem forall₂_comp (h : List.Forall₂ R left middle) (h' : List.Forall₂ S middle right) :
    List.Forall₂ (fun a c => ∃ b, R a b ∧ S b c) left right := by
  induction h generalizing right with
  | nil =>
      cases h'
      exact .nil
  | cons hfirst _ ih =>
      cases h' with
      | cons hfirst' hrest' => exact .cons ⟨_, hfirst, hfirst'⟩ (ih hrest')

theorem exists_mem_left_of_forall₂ (h : List.Forall₂ R left middle) {b : β} (hb : b ∈ middle) :
    ∃ a ∈ left, R a b := by
  induction h with
  | nil => cases hb
  | cons hfirst _ ih =>
      rcases List.mem_cons.1 hb with rfl | hb
      · exact ⟨_, List.mem_cons_self, hfirst⟩
      · obtain ⟨a, ha, hr⟩ := ih hb
        exact ⟨a, List.mem_cons_of_mem _ ha, hr⟩

theorem exists_mem_right_of_forall₂ (h : List.Forall₂ R left middle) {a : α} (ha : a ∈ left) :
    ∃ b ∈ middle, R a b := by
  obtain ⟨b, hb, hr⟩ := exists_mem_left_of_forall₂ (List.Forall₂.flip h) ha
  exact ⟨b, hb, hr⟩

theorem map_eq_of_forall₂ {f : α → γ} {g : β → γ} (hf : ∀ a b, R a b → g b = f a)
    (h : List.Forall₂ R left middle) : middle.map g = left.map f := by
  induction h with
  | nil => rfl
  | cons hfirst _ ih => rw [List.map_cons, List.map_cons, hf _ _ hfirst, ih]

theorem find?_of_forall₂ {p : α → Bool} {q : β → Bool} (hp : ∀ a b, R a b → q b = p a)
    (h : List.Forall₂ R left middle) : Option.Rel R (left.find? p) (middle.find? q) := by
  induction h with
  | nil => exact .none
  | @cons a b _ _ hfirst _ ih =>
      rw [List.find?_cons, List.find?_cons, hp a b hfirst]
      cases p a with
      | true => exact .some hfirst
      | false => exact ih

theorem filterMap_eq_of_forall₂ {f : α → Option γ} {g : β → Option γ}
    (hf : ∀ a b, R a b → g b = f a) (h : List.Forall₂ R left middle) :
    middle.filterMap g = left.filterMap f := by
  induction h with
  | nil => rfl
  | cons hfirst _ ih => rw [List.filterMap_cons, List.filterMap_cons, hf _ _ hfirst, ih]

theorem forall₂_filterMap {f : γ → Option α} {sources : List γ}
    (h : List.Forall₂ (fun c b => ∃ a, f c = some a ∧ R a b) sources middle) :
    List.Forall₂ R (sources.filterMap f) middle := by
  induction h with
  | nil => exact .nil
  | cons hfirst _ ih =>
      obtain ⟨a, ha, hr⟩ := hfirst
      rw [List.filterMap_cons_some ha]
      exact .cons hr ih

theorem forall₂_flatMap_filterMap {δ : Type} {T : γ → δ → Prop} {f : α → List γ}
    {g : β → Option δ}
    (h : List.Forall₂ (fun a b => List.Forall₂ T (f a) (g b).toList) left middle) :
    List.Forall₂ T (left.flatMap f) (middle.filterMap g) := by
  induction h with
  | nil => exact .nil
  | @cons a b _ rest hfirst _ ih =>
      have hsplit : (b :: rest).filterMap g = (g b).toList ++ rest.filterMap g := by
        cases hb : g b <;> simp [hb]
      rw [List.flatMap_cons, hsplit]
      exact List.rel_append hfirst ih

theorem forall₂_mem (h : List.Forall₂ R left middle) :
    List.Forall₂ (fun a b => a ∈ left ∧ R a b) left middle := by
  refine List.forall₂_iff_zip.2 ⟨h.length_eq, fun {a b} hmem => ?_⟩
  exact ⟨(List.of_mem_zip hmem).1, List.forall₂_zip h hmem⟩

theorem forall₂_and {T : α → β → Prop} (h : List.Forall₂ R left middle)
    (h' : List.Forall₂ T left middle) : List.Forall₂ (fun a b => R a b ∧ T a b) left middle := by
  induction h with
  | nil => exact .nil
  | cons hfirst _ ih =>
      cases h' with
      | cons hfirst' hrest' => exact .cons ⟨hfirst, hfirst'⟩ (ih hrest')

/-- What is in step with a list has its last item beside the last one. -/
theorem exists_append_of_forall₂ {a : α} (h : List.Forall₂ R (left ++ [a]) middle) :
    ∃ front b, middle = front ++ [b] ∧ List.Forall₂ R left front ∧ R a b := by
  induction left generalizing middle with
  | nil =>
      cases h with
      | cons hlast hnil =>
          cases hnil
          exact ⟨[], _, rfl, .nil, hlast⟩
  | cons first rest ih =>
      cases h with
      | cons hfirst hrest =>
          obtain ⟨front, b, rfl, hfront, hlast⟩ := ih hrest
          exact ⟨_ :: front, b, rfl, .cons hfirst hfront, hlast⟩

theorem forall₂_zip_left {T : α → γ → Prop} (h : List.Forall₂ R left middle)
    (h' : List.Forall₂ T left right) :
    List.Forall₂ (fun pair c => R pair.1 pair.2 ∧ T pair.1 c) (left.zip middle) right := by
  induction h generalizing right with
  | nil =>
      cases h'
      exact .nil
  | cons hfirst _ ih =>
      cases h' with
      | cons hfirst' hrest' => exact .cons ⟨hfirst, hfirst'⟩ (ih hrest')

/-- The items that pass a test are in step with what those beside them give. -/
theorem forall₂_filter_filterMap {p : α → Bool} {g : β → Option γ}
    (h : List.Forall₂ R left middle) (hp : ∀ a b, R a b → p a = (g b).isSome) :
    List.Forall₂ (fun a c => ∃ b, R a b ∧ g b = some c) (left.filter p) (middle.filterMap g) := by
  induction h with
  | nil => exact .nil
  | @cons a b _ _ hfirst _ ih =>
      have hsame := hp a b hfirst
      cases hgive : g b with
      | none =>
          rw [List.filterMap_cons_none hgive, List.filter_cons_of_neg (by simp [hsame, hgive])]
          exact ih
      | some c =>
          rw [List.filterMap_cons_some hgive, List.filter_cons_of_pos (by simp [hsame, hgive])]
          exact .cons ⟨b, hfirst, hgive⟩ ih

/-- Of a list in step with one without repetitions, the elements that belong to a given one. -/
theorem filter_of_forall₂ (h : List.Forall₂ R left middle) (hnodup : left.Nodup) (a : α)
    {p : β → Bool} (hp : ∀ x ∈ left, ∀ y, R x y → (p y = true ↔ x = a)) :
    (a ∉ left → middle.filter p = []) ∧
      (a ∈ left → ∃ b, (a, b) ∈ left.zip middle ∧ middle.filter p = [b]) := by
  induction h with
  | nil => exact ⟨fun _ => rfl, fun hmem => absurd hmem List.not_mem_nil⟩
  | @cons x y rest more hfirst _ ih =>
      obtain ⟨hnot, hrest⟩ := List.nodup_cons.1 hnodup
      obtain ⟨hnone, hone⟩ := ih hrest fun z hz => hp z (List.mem_cons_of_mem _ hz)
      have hhead := hp x List.mem_cons_self y hfirst
      constructor
      · intro hmem
        rw [List.mem_cons, not_or] at hmem
        rw [List.filter_cons_of_neg fun hy => hmem.1 (hhead.1 hy).symm]
        exact hnone hmem.2
      · intro hmem
        rcases List.mem_cons.1 hmem with rfl | hmem
        · refine ⟨y, List.mem_cons_self, ?_⟩
          rw [List.filter_cons_of_pos (hhead.2 rfl), hnone hnot]
        · obtain ⟨b, hb, hfilter⟩ := hone hmem
          refine ⟨b, List.mem_cons_of_mem _ hb, ?_⟩
          rw [List.filter_cons_of_neg fun hy => hnot (hhead.1 hy ▸ hmem), hfilter]

/-! ## Maps -/

namespace SortedMap

variable {κ : Type} [Ord κ] {m : SortedMap κ α} {m' : SortedMap κ β}

/-- The entries have the same keys, and values that are related. -/
def InStep (R : α → β → Prop) (m : SortedMap κ α) (m' : SortedMap κ β) : Prop :=
  List.Forall₂ (fun entry entry' => entry'.1 = entry.1 ∧ R entry.2 entry'.2) m.entries m'.entries

theorem InStep.values (h : m.InStep R m') : List.Forall₂ R m.values m'.values := by
  rw [SortedMap.values, SortedMap.values, List.forall₂_map_left_iff, List.forall₂_map_right_iff]
  exact h.imp fun _ _ hentry => hentry.2

theorem InStep.find? (h : m.InStep R m') (key : κ) :
    Option.Rel R (m.find? key) (m'.find? key) := by
  rw [SortedMap.find?, SortedMap.find?]
  rw [InStep] at h
  generalize m.entries = entries, m'.entries = entries' at h ⊢
  induction h with
  | nil => exact .none
  | cons hentry _ ih =>
      rw [lookup, lookup, hentry.1]
      split
      · exact .some hentry.2
      · exact ih

theorem forall₂_place {key : κ} {x : α} {y : β} (hxy : R x y) {entries : List (κ × α)}
    {entries' : List (κ × β)}
    (h : List.Forall₂ (fun entry entry' => entry'.1 = entry.1 ∧ R entry.2 entry'.2)
      entries entries') :
    List.Forall₂ (fun entry entry' => entry'.1 = entry.1 ∧ R entry.2 entry'.2)
      (place key x entries) (place key y entries') := by
  induction h with
  | nil => exact .cons ⟨rfl, hxy⟩ .nil
  | cons hentry hrest ih =>
      rw [place, place, hentry.1]
      split
      · exact .cons ⟨rfl, hxy⟩ (.cons ⟨rfl, hentry.2⟩ hrest)
      · exact .cons ⟨rfl, hxy⟩ hrest
      · exact .cons ⟨rfl, hentry.2⟩ ih

theorem InStep.insertNew [Std.TransOrd κ] (h : m.InStep R m') (key : κ) {x : α} {y : β}
    (hxy : R x y) : (m.insertNew key x).InStep R (m'.insertNew key y) := by
  have hcontains : m'.contains key = m.contains key := by
    have hfind := h.find? key
    rw [contains, contains]
    generalize m.find? key = found, m'.find? key = found' at hfind ⊢
    cases hfind <;> rfl
  rw [SortedMap.insertNew, SortedMap.insertNew, hcontains]
  split
  · exact h
  · exact forall₂_place hxy h

end SortedMap

end YangToProto

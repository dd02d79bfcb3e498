/-!
# Texts in segments

Schema paths, package names and file paths are sequences of segments with a separator between
neighbours. Splitting and joining are inverse as long as no segment holds the separator
(`split_join`).
-/

namespace YangToProto.Segments

/-- The pieces of a text between the occurrences of a separator; there is always at least one. -/
def split (sep : Char) : List Char → List (List Char)
  | [] => [[]]
  | c :: rest =>
    if c = sep then [] :: split sep rest
    else
      match split sep rest with
      | [] => [[c]]
      | piece :: pieces => (c :: piece) :: pieces

def join (sep : Char) : List (List Char) → List Char
  | [] => []
  | [piece] => piece
  | piece :: pieces => piece ++ sep :: join sep pieces

theorem split_ne_nil (sep : Char) (text : List Char) : split sep text ≠ [] := by
  cases text with
  | nil => simp [split]
  | cons c rest =>
    simp only [split]
    split
    · simp
    · split <;> simp

theorem split_of_not_mem {sep : Char} {piece : List Char} (h : sep ∉ piece) :
    split sep piece = [piece] := by
  induction piece with
  | nil => rfl
  | cons c rest ih =>
    have hc : c ≠ sep := fun hc => h (by simp [hc])
    have hr : sep ∉ rest := fun hr => h (by simp [hr])
    simp [split, hc, ih hr]

theorem split_append {sep : Char} {piece : List Char} (h : sep ∉ piece) (rest : List Char) :
    split sep (piece ++ sep :: rest) = piece :: split sep rest := by
  induction piece with
  | nil => simp [split]
  | cons c tail ih =>
    have hc : c ≠ sep := fun hc => h (by simp [hc])
    have ht : sep ∉ tail := fun ht => h (by simp [ht])
    simp [split, hc, ih ht]

/-- Pieces without the separator come back from their joined text. -/
theorem split_join {sep : Char} {pieces : List (List Char)} (hne : pieces ≠ [])
    (h : ∀ piece ∈ pieces, sep ∉ piece) : split sep (join sep pieces) = pieces := by
  induction pieces with
  | nil => exact absurd rfl hne
  | cons piece rest ih =>
    cases rest with
    | nil => exact split_of_not_mem (h piece (by simp))
    | cons next more =>
      rw [join, split_append (h piece (by simp))]
      · rw [ih (by simp) fun p hp => h p (List.mem_cons_of_mem _ hp)]
      · simp

/-- A text always is what its pieces join to. -/
theorem join_split (sep : Char) (text : List Char) : join sep (split sep text) = text := by
  induction text with
  | nil => rfl
  | cons c rest ih =>
    simp only [split]
    split
    · rename_i hc
      subst hc
      cases hs : split c rest with
      | nil => exact absurd hs (split_ne_nil c rest)
      | cons piece pieces =>
        rw [join, ← hs, ih]
        · rfl
        · simp
    · cases hs : split sep rest with
      | nil => exact absurd hs (split_ne_nil sep rest)
      | cons piece pieces =>
        rw [hs] at ih
        cases pieces with
        | nil => simpa [join] using ih
        | cons next more =>
          rw [join] at ih ⊢
          · simp [← ih]
          · simp
          · simp

/-- The pieces of a string between the occurrences of a separator. -/
def ofString (sep : Char) (text : String) : List String :=
  (split sep text.toList).map String.ofList

def toString (sep : Char) (pieces : List String) : String :=
  String.ofList (join sep (pieces.map String.toList))

/-- The text behind the last separator, all of it if there is none. -/
def last (sep : Char) (text : String) : String :=
  String.ofList ((split sep text.toList).getLastD [])

end YangToProto.Segments

import YangToProto.Generation.Config
import YangToProto.Proofs.Files.Places
import YangToProto.Proofs.Naming.PackageNames

/-!
# Files of packages

The path of a package's file goes through the parts of the package. Where these are identifiers, it
tells the package (`Package.filePath_injective`) and leads straight down
(`Package.IsName.descends`). A package stays made of identifiers when parts or a numeric suffix are
added.
-/

namespace YangToProto

namespace Package

variable {package other : String}

/-- Identifiers joined by dots, none of them empty. -/
def IsName (package : String) : Prop :=
  ∀ part ∈ Segments.split '.' package.toList,
    part ≠ [] ∧ ∀ c ∈ part, Identifier.isAllowed c = true

theorem IsName.slash_notMem (h : IsName package) : '/' ∉ package.toList := by
  intro hslash
  obtain ⟨part, hpart, hmem⟩ := Segments.exists_mem_split (show '/' ≠ '.' by decide) hslash
  exact absurd ((h part hpart).2 '/' hmem) (by decide)

theorem split_map {text : List Char} (h : '/' ∉ text) :
    Segments.split '/' (text.map fun c => if c = '.' then '/' else c) =
      Segments.split '.' text := by
  induction text with
  | nil => rfl
  | cons c rest ih =>
      obtain ⟨hc, hrest⟩ := not_or.1 (mt List.mem_cons.2 h)
      rw [List.map_cons, Segments.split, Segments.split, ih hrest]
      by_cases hdot : c = '.'
      · rw [if_pos hdot, if_pos rfl, if_pos hdot]
      · rw [if_neg hdot, if_neg (Ne.symm hc), if_neg hdot]

theorem IsName.descends (h : IsName package) : Path.Descends (filePath package) := by
  obtain ⟨init, last, hparts, hpieces⟩ :=
    Segments.split_append_suffix (show '/' ∉ ".proto".toList by decide)
      (importPath package).toList
  rw [toList_importPath, split_map h.slash_notMem] at hparts
  intro name hname
  rw [Segments.ofString, filePath, String.toList_append, hpieces, List.map_append,
    List.mem_append] at hname
  rcases hname with hinit | hlast
  · obtain ⟨part, hpart, rfl⟩ := List.mem_map.1 hinit
    have hmem : part ∈ Segments.split '.' package.toList := by
      rw [hparts]
      exact List.mem_append_left _ hpart
    have hne := (h part hmem).1
    have hdot := Segments.sep_notMem_split part hmem
    simp only [ne_eq, ← String.toList_inj, String.toList_ofList]
    refine ⟨hne, fun heq => ?_, fun heq => ?_⟩
    · exact hdot (heq ▸ List.mem_cons_self)
    · exact hdot (heq ▸ List.mem_cons_self)
  · -- the last name ends in the extension, which is too long for a step on the spot or up
    rw [List.map_singleton, List.mem_singleton] at hlast
    subst hlast
    have hlong : 2 < (last ++ ".proto".toList).length := by
      rw [List.length_append]
      exact Nat.lt_of_lt_of_le (by decide) (Nat.le_add_left _ _)
    simp only [ne_eq, ← String.toList_inj, String.toList_ofList]
    refine ⟨fun heq => ?_, fun heq => ?_, fun heq => ?_⟩
    · exact absurd (heq ▸ hlong) (by decide)
    · exact absurd (heq ▸ hlong) (by decide)
    · exact absurd (heq ▸ hlong) (by decide)

theorem filePath_injective (h : IsName package) (h' : IsName other)
    (heq : filePath package = filePath other) : package = other := by
  have himport : importPath package = importPath other := by
    rw [filePath, filePath] at heq
    exact (String.append_left_inj _).1 heq
  exact importPath_injective h.slash_notMem h'.slash_notMem himport

theorem IsName.append (h : IsName package) (h' : IsName other) :
    IsName (package ++ "." ++ other) := by
  have hsplit := Segments.split_append_cons '.' package.toList other.toList
  intro part hpart
  rw [String.toList_append, String.toList_append, List.append_assoc] at hpart
  change part ∈ Segments.split '.' (package.toList ++ '.' :: other.toList) at hpart
  rw [hsplit, List.mem_append] at hpart
  exact hpart.elim (h part) (h' part)

theorem isName_of_allowed (hne : package ≠ "")
    (h : ∀ c ∈ package.toList, Identifier.isAllowed c = true) : IsName package := by
  have hdot : '.' ∉ package.toList := fun hmem => absurd (h '.' hmem) (by decide)
  intro part hpart
  rw [Segments.split_of_not_mem hdot, List.mem_singleton] at hpart
  subst hpart
  exact ⟨fun hnil => hne (String.toList_eq_nil_iff.1 hnil), h⟩

theorem isName_sanitize {name : String} (h : name ≠ "") : IsName (Identifier.sanitize name) := by
  refine isName_of_allowed ?_ fun c hc => ?_
  · intro hempty
    have hnil := congrArg String.toList hempty
    rw [Identifier.sanitize, String.toList_map] at hnil
    exact h (String.toList_eq_nil_iff.1 (List.map_eq_nil_iff.1 hnil))
  · rw [Identifier.sanitize, String.toList_map] at hc
    obtain ⟨c, _, rfl⟩ := List.mem_map.1 hc
    split
    · assumption
    · decide

theorem IsName.dotted (h : IsName package) {parts : List String}
    (hparts : ∀ part ∈ parts, IsName part) : IsName (dotted (package :: parts)) := by
  induction parts generalizing package with
  | nil =>
      rw [Package.dotted, String.intercalate_singleton]
      exact h
  | cons part rest ih =>
      rw [Package.dotted, String.intercalate_cons_cons]
      exact h.append (ih (hparts part List.mem_cons_self) fun other ho =>
        hparts other (List.mem_cons_of_mem _ ho))

theorem IsName.numbered (h : IsName package) (n : Nat) :
    IsName (Identifier.numbered package n) := by
  have hdigits : ∀ c ∈ Nat.toDigits 10 n, c.isDigit = true := fun c hc =>
    Nat.isDigit_of_mem_toDigits (by decide) (by decide) hc
  have hsuffix : ∀ c ∈ '_' :: Nat.toDigits 10 n, Identifier.isAllowed c = true := by
    intro c hc
    rcases List.mem_cons.1 hc with rfl | hc
    · decide
    · simp [Identifier.isAllowed, Char.isAlphanum, hdigits c hc]
  have hdot : '.' ∉ '_' :: Nat.toDigits 10 n := fun hmem => absurd (hsuffix '.' hmem) (by decide)
  obtain ⟨init, last, hparts, hpieces⟩ := Segments.split_append_suffix hdot package.toList
  have htext : (Identifier.numbered package n).toList =
      package.toList ++ '_' :: Nat.toDigits 10 n := by
    change (package ++ "_" ++ Nat.repr n).toList = _
    simp [Nat.repr]
  intro part hpart
  rw [htext, hpieces, List.mem_append, List.mem_singleton] at hpart
  have hold : ∀ part ∈ init ++ [last], part ≠ [] ∧ ∀ c ∈ part, Identifier.isAllowed c = true := by
    rw [← hparts]
    exact h
  rcases hpart with hinit | rfl
  · exact hold part (List.mem_append_left _ hinit)
  · have hlast := hold last (List.mem_append_right _ (List.mem_singleton_self _))
    refine ⟨List.append_ne_nil_of_left_ne_nil hlast.1 _, fun c hc => ?_⟩
    exact (List.mem_append.1 hc).elim (hlast.2 c) (hsuffix c)

theorem IsName.firstFree (h : IsName package) (used : NameSet) :
    IsName (used.firstFree package) := by
  cases hused : used.contains package with
  | false =>
      rw [NameSet.firstFree_of_free hused]
      exact h
  | true =>
      obtain ⟨n, _, hname, _⟩ := NameSet.exists_firstFree_eq_numbered hused
      rw [hname]
      exact h.numbered n

end Package

end YangToProto

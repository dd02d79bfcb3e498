import YangToProto.Proofs.Files.Saving
import YangToProto.Proofs.Text.Segments

/-!
# Places below a directory

A path below a directory goes through the names of the directory and then through its own
(`Path.names_join`). Where its own names lead neither up nor stay on the spot, they can be read off
the place that it leads to, so paths below one directory that lead to one place have the same names
(`Disk.SamePlace.names_eq`).
-/

namespace YangToProto

namespace Path

/-- A path that goes down from where it starts, with no empty name in it. -/
def Descends (path : String) : Prop :=
  ∀ name ∈ Segments.ofString '/' path, name ≠ "" ∧ name ≠ "." ∧ name ≠ ".."

theorem names_append (dir path : String) :
    names (dir ++ "/" ++ path) = names dir ++ names path := by
  have hsplit := Segments.split_append_cons '/' dir.toList path.toList
  simp only [names, Segments.ofString, String.toList_append, List.append_assoc]
  rw [← List.filter_append, ← List.map_append, ← hsplit]
  rfl

theorem names_of_descends {path : String} (h : Descends path) :
    names path = Segments.ofString '/' path := by
  rw [names, List.filter_eq_self]
  intro name hname
  simp [(h name hname).1]

theorem not_isAbsolute {path : String} (h : Descends path) : isAbsolute path = false := by
  rw [isAbsolute, beq_eq_false_iff_ne]
  intro hhead
  cases htext : path.toList with
  | nil => simp [htext] at hhead
  | cons c rest =>
      obtain rfl : c = '/' := by simpa [htext] using hhead
      have hfirst : "" ∈ Segments.ofString '/' path := by
        rw [Segments.ofString, htext, Segments.split, if_pos rfl]
        exact List.mem_cons_self
      exact (h "" hfirst).1 rfl

theorem join_of_descends {path : String} (h : Descends path) (dir : String) :
    join dir path =
      if dir = "" then path else if endsInside dir then dir ++ path else dir ++ "/" ++ path := by
  simp only [join, not_isAbsolute h, Bool.false_or, String.isEmpty_iff]

theorem isAbsolute_join {path : String} (h : Descends path) (dir : String) :
    isAbsolute (join dir path) = isAbsolute dir := by
  rw [join_of_descends h]
  split
  · rename_i hdir
    rw [not_isAbsolute h, hdir]
    rfl
  · rename_i hdir
    cases htext : dir.toList with
    | nil => exact absurd (String.toList_eq_nil_iff.1 htext) hdir
    | cons c rest =>
        split
        · simp [isAbsolute, htext]
        · simp [isAbsolute, htext]

theorem names_empty : names "" = [] := rfl

theorem names_join {path : String} (h : Descends path) (dir : String) :
    names (join dir path) = names dir ++ names path := by
  rw [join_of_descends h]
  split
  · rename_i hdir
    rw [hdir, names_empty, List.nil_append]
  · split
    · rename_i hends
      obtain ⟨init, hinit⟩ := List.getLast?_eq_some_iff.1 (beq_iff_eq.1 hends)
      have hdir : dir = String.ofList init ++ "/" := by
        rw [← String.toList_inj, hinit]
        simp
      have hnames := names_append (String.ofList init) ""
      rw [String.append_empty, names_empty, List.append_nil] at hnames
      rw [hdir, names_append, hnames]
    · exact names_append dir path

end Path

namespace Disk

variable {disk : Disk} {l place : Location} {dir path other : String}

theorem step_cases {name : String} (h : disk.step place name = .ok l) :
    name = "." ∧ l = place ∨ name = ".." ∧ l = place.up ∨
      name ≠ "." ∧ name ≠ ".." ∧ l = place.child name := by
  rw [step] at h
  split at h
  · cases h
  · cases h
  · split at h
    · cases h
      exact .inl ⟨‹_›, rfl⟩
    · split at h
      · cases h
        exact .inr (.inl ⟨‹_›, rfl⟩)
      · split at h
        · cases h
        · cases h
          exact .inr (.inr ⟨‹_›, ‹_›, rfl⟩)

/-- A path is followed name by name; a slash at its end makes no difference to where it leads. -/
theorem of_locate (h : disk.locate path = .ok l) :
    (Path.names path).foldlM disk.step (Location.start path) = .ok l := by
  rw [locate, follow] at h
  split at h
  · cases h
  · rw [Path.steps] at h
    split at h
    · rw [List.foldlM_append] at h
      cases hnames : (Path.names path).foldlM disk.step (Location.start path) with
      | error fault => rw [hnames] at h; cases h
      | ok reached =>
          rw [hnames] at h
          change ["."].foldlM disk.step reached = .ok l at h
          simp only [List.foldlM_cons, List.foldlM_nil, bind_pure] at h
          rcases step_cases h with ⟨_, rfl⟩ | ⟨hup, _⟩ | ⟨hspot, _⟩
          · rfl
          · exact absurd hup (by decide)
          · exact absurd rfl hspot
    · exact h

/-- The names are those from the start to the place. -/
theorem names_of_foldlM {names : List String} (hnames : ∀ name ∈ names, name ≠ "." ∧ name ≠ "..")
    (h : names.foldlM disk.step place = .ok l) :
    l = ⟨place.base, names.reverse ++ place.names⟩ := by
  induction names generalizing place with
  | nil =>
      cases h
      rfl
  | cons name rest ih =>
      rw [List.foldlM_cons] at h
      cases hstep : disk.step place name with
      | error fault => rw [hstep] at h; cases h
      | ok next =>
          rw [hstep] at h
          obtain ⟨hspot, hup⟩ := hnames name List.mem_cons_self
          have hrest := ih (fun other ho => hnames other (List.mem_cons_of_mem _ ho)) h
          rcases step_cases hstep with ⟨heq, _⟩ | ⟨heq, _⟩ | ⟨_, _, rfl⟩
          · exact absurd heq hspot
          · exact absurd heq hup
          · simp [hrest, Location.child]

/-- Paths below one directory that lead to one place are the same. -/
theorem SamePlace.eq_of_descends (hpath : Path.Descends path) (hother : Path.Descends other)
    (h : disk.SamePlace (Path.join dir path) (Path.join dir other)) : path = other := by
  obtain ⟨l, hl, hl'⟩ := h
  have hfirst := of_locate hl
  have hsecond := of_locate hl'
  have hstart : ∀ {path}, Path.Descends path →
      Location.start (Path.join dir path) = Location.start dir := fun h => by
    rw [Location.start, Path.isAbsolute_join h, Location.start]
  rw [hstart hpath, Path.names_join hpath, List.foldlM_append] at hfirst
  rw [hstart hother, Path.names_join hother, List.foldlM_append] at hsecond
  cases hdir : (Path.names dir).foldlM disk.step (Location.start dir) with
  | error fault => rw [hdir] at hfirst; cases hfirst
  | ok reached =>
      rw [hdir] at hfirst hsecond
      have hproper : ∀ {path}, Path.Descends path → ∀ name ∈ Path.names path,
          name ≠ "." ∧ name ≠ ".." := fun h name hname => by
        rw [Path.names_of_descends h] at hname
        exact (h name hname).2
      have hends := (names_of_foldlM (hproper hpath) hfirst).symm.trans
        (names_of_foldlM (hproper hother) hsecond)
      have hnames := congrArg Location.names hends
      simp only [List.append_cancel_right_eq, List.reverse_inj] at hnames
      rw [Path.names_of_descends hpath, Path.names_of_descends hother] at hnames
      exact Segments.ofString_injective hnames

end Disk

end YangToProto

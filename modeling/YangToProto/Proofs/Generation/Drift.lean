import YangToProto.Generation.OnDisk
import YangToProto.Proofs.Files.Saving

/-!
# Drift of written files

Files that were written below a directory are compared with the disk. A file is compared with the
one that was written last at its place (`of_writeAll`, `driftAll_eq`), so none of them has drifted
exactly if files written to one place have the same digest (`upToDate_iff`).
-/

namespace YangToProto

open Disk

variable {disk middle later : Disk} {dir path text : String} {file : ProtoFile}
  {files : List ProtoFile} {l : Location}

def Disk.textAt (disk : Disk) (path : String) : String := (disk.readText path).toOption.getD ""

theorem Disk.Holds.textAt (h : disk.Holds path text l) : disk.textAt path = text := by
  rw [Disk.textAt, h.readText]
  rfl

/-! ## One file -/

namespace FileDrift

def upToDate (path : String) : FileDrift := ⟨path, .unchanged, ""⟩

theorem ofTexts_eq_upToDate {onDisk generated : String}
    (h : Digest.ofText generated = Digest.ofText onDisk) :
    ofTexts path onDisk generated = upToDate path := by
  rw [ofTexts, if_pos]
  · rfl
  · simp [Digest.verify, h]

theorem isDrifted_ofTexts_iff {onDisk generated : String} :
    (ofTexts path onDisk generated).isDrifted = true ↔
      Digest.ofText generated ≠ Digest.ofText onDisk := by
  rw [ofTexts]
  split
  · rename_i h
    simpa [isDrifted, Digest.verify] using h
  · rename_i h
    simpa [isDrifted, Digest.verify] using h

end FileDrift

namespace ProtoFile

def pathIn (dir : String) (file : ProtoFile) : String := Path.join dir file.path

theorem of_writeTo (h : (file.writeTo dir : ExceptT FileFault (StateM Disk) String) disk =
      (.ok path, later)) :
    path = file.pathIn dir ∧
      ∃ l, later.Holds (file.pathIn dir) file.content l ∧ disk.Grows (· = l) later := by
  obtain ⟨_, middle, hmade, h⟩ := bind_eq_ok h
  obtain ⟨_, written, hwritten, h⟩ := bind_eq_ok h
  obtain ⟨rfl, rfl⟩ := pure_eq_ok h
  exact ⟨rfl, of_save hmade hwritten⟩

theorem drift_eq (h : disk.Holds (file.pathIn dir) text l) :
    (file.drift dir : ExceptT FileFault (StateM Disk) FileDrift) disk =
      (.ok (.ofTexts (file.pathIn dir) text file.content), disk) := by
  have hexists : (liftM (FileAccess.pathExists (file.pathIn dir) : StateM Disk Bool) :
      ExceptT FileFault (StateM Disk) Bool) disk = (.ok true, disk) := by
    rw [pathExists_apply, h.pathExists]
  have hread : (FileAccess.readText (file.pathIn dir) : ExceptT FileFault (StateM Disk) String)
      disk = (.ok text, disk) := by
    rw [readText_apply, h.readText]
  exact (run_bind hexists).trans (run_bind hread)

theorem zipWith_path (files : List ProtoFile) :
    List.zipWith (fun path file => { file with path := path }) (files.map ProtoFile.path) files =
      files := by
  induction files with
  | nil => rfl
  | cons file rest ih => rw [List.map_cons, List.zipWith_cons_cons, ih]

end ProtoFile

/-! ## All files -/

/-- Each file has a place on the disk, and there is the content of one of the files that have this
place. -/
def Disk.HoldsAll (disk : Disk) (dir : String) (files : List ProtoFile) : Prop :=
  ∀ file ∈ files, ∃ l, disk.locate (file.pathIn dir) = .ok l ∧
    ∃ last ∈ files, disk.Holds (last.pathIn dir) last.content l

/-- The place is that of one of the files. -/
def Disk.IsPlaceOf (disk : Disk) (dir : String) (files : List ProtoFile) (l : Location) : Prop :=
  ∃ file ∈ files, disk.locate (file.pathIn dir) = .ok l

/-- Writing elsewhere makes no difference. -/
theorem Disk.HoldsAll.of_grows (h : disk.HoldsAll dir files) {written : Location → Prop}
    (hgrows : disk.Grows written later)
    (hspared : ∀ file ∈ files, ∀ l, disk.locate (file.pathIn dir) = .ok l → ¬ written l) :
    later.HoldsAll dir files := by
  intro file hfile
  obtain ⟨l, hl, last, hlast, hholds⟩ := h file hfile
  exact ⟨l, hgrows.locate hl, last, hlast, hgrows.holds hholds (hspared file hfile l hl)⟩

theorem of_writeAll {paths : List String}
    (h : (files.mapM fun file => file.writeTo dir : ExceptT FileFault (StateM Disk) _) disk =
      (.ok paths, later)) :
    paths = files.map (ProtoFile.pathIn dir) ∧ later.HoldsAll dir files ∧
      disk.Grows (later.IsPlaceOf dir files) later := by
  induction files generalizing disk paths with
  | nil =>
      obtain ⟨rfl, rfl⟩ := pure_eq_ok h
      exact ⟨rfl, fun _ h => absurd h List.not_mem_nil, .refl _ _⟩
  | cons file rest ih =>
      rw [List.mapM_cons] at h
      obtain ⟨first, middle, hfirst, h⟩ := bind_eq_ok h
      obtain ⟨others, ended, hothers, h⟩ := bind_eq_ok h
      obtain ⟨rfl, rfl⟩ := pure_eq_ok h
      obtain ⟨rfl, l, hholds, hwrites⟩ := ProtoFile.of_writeTo hfirst
      obtain ⟨rfl, hall, hgrows⟩ := ih hothers
      have hplace := hgrows.locate hholds.locate
      refine ⟨rfl, fun other hother => ?_, ?_⟩
      · rcases List.mem_cons.1 hother with rfl | hrest
        · by_cases hagain : ended.IsPlaceOf dir rest l
          · -- the place is written again later on
            obtain ⟨same, hsame, hlocate⟩ := hagain
            obtain ⟨reached, hreached, last, hlast, hlastHolds⟩ := hall same hsame
            rw [hlocate] at hreached
            cases hreached
            exact ⟨l, hplace, last, List.mem_cons_of_mem _ hlast, hlastHolds⟩
          · exact ⟨l, hplace, other, List.mem_cons_self, hgrows.holds hholds hagain⟩
        · obtain ⟨reached, hreached, last, hlast, hlastHolds⟩ := hall other hrest
          exact ⟨reached, hreached, last, List.mem_cons_of_mem _ hlast, hlastHolds⟩
      · refine (hwrites.mono ?_).trans (hgrows.mono ?_)
        · rintro _ rfl
          exact ⟨file, List.mem_cons_self, hplace⟩
        · rintro reached ⟨other, hother, hlocate⟩
          exact ⟨other, List.mem_cons_of_mem _ hother, hlocate⟩

def Disk.drifts (disk : Disk) (dir : String) (files : List ProtoFile) : List FileDrift :=
  files.map fun file =>
    .ofTexts (file.pathIn dir) (disk.textAt (file.pathIn dir)) file.content

theorem driftAll_eq (h : disk.HoldsAll dir files) :
    (files.mapM fun file => file.drift dir : ExceptT FileFault (StateM Disk) _) disk =
      (.ok (disk.drifts dir files), disk) := by
  have hholds : ∀ file ∈ files, ∃ text l, disk.Holds (file.pathIn dir) text l := by
    intro file hfile
    obtain ⟨l, hl, last, _, hlast⟩ := h file hfile
    exact ⟨last.content, l, hl, hlast.lookup?⟩
  clear h
  induction files with
  | nil => rfl
  | cons file rest ih =>
      obtain ⟨text, l, hfile⟩ := hholds file List.mem_cons_self
      have hrest := ih fun other ho => hholds other (List.mem_cons_of_mem _ ho)
      rw [List.mapM_cons, run_bind (ProtoFile.drift_eq hfile), run_bind hrest, ← hfile.textAt]
      rfl

/-- No file has drifted exactly if files at one place have the same digest. -/
theorem upToDate_iff (h : disk.HoldsAll dir files) :
    (∀ file ∈ files, Digest.ofText file.content =
        Digest.ofText (disk.textAt (file.pathIn dir))) ↔
      ∀ file ∈ files, ∀ other ∈ files, disk.SamePlace (file.pathIn dir) (other.pathIn dir) →
        Digest.ofText file.content = Digest.ofText other.content := by
  constructor
  · rintro hdigests file hfile other hother ⟨l, hl, hl'⟩
    obtain ⟨reached, hreached, last, _, hholds⟩ := h file hfile
    rw [hl] at hreached
    cases hreached
    have htext : ∀ same : ProtoFile, disk.locate (same.pathIn dir) = .ok l →
        disk.textAt (same.pathIn dir) = last.content :=
      fun same hsame => Holds.textAt ⟨hsame, hholds.lookup?⟩
    rw [hdigests file hfile, hdigests other hother, htext file hl, htext other hl']
  · intro hsame file hfile
    obtain ⟨l, hl, last, hlast, hholds⟩ := h file hfile
    have htext : disk.textAt (file.pathIn dir) = last.content :=
      Holds.textAt ⟨hl, hholds.lookup?⟩
    rw [htext]
    exact hsame file hfile last hlast ⟨l, hl, hholds.locate⟩

end YangToProto

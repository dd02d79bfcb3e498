import YangToProto.Proofs.Files.Saving
import YangToProto.Proofs.Ledger.FileRoundTrip

/-!
# Ledger files on a disk

A ledger that was saved is loaded again, and saving it once more changes nothing on the disk
(`Ledger.loaded_and_saved`). Making directories that were made before has no effect
(`Disk.createDirectories_again`), and neither has writing a file with the text that it holds
(`Disk.write_again`).
-/

namespace YangToProto

namespace Disk

variable {disk middle later : Disk} {written : Location → Prop} {l reached next : Location}
  {path : String}

/-! ## Directories made before -/

theorem step_of_descend {name : String} (h : descend l name disk = (.ok next, later)) :
    disk.step l name = .ok next := by
  rw [descend_apply] at h
  cases hstep : disk.step l name with
  | error fault => rw [hstep] at h; cases h
  | ok found =>
      rw [hstep] at h
      cases h
      rfl

theorem descend_of_directory {name : String} (hstep : disk.step l name = .ok next)
    (h : disk.lookup? next = some .directory) : descend l name disk = (.ok next, disk) := by
  rw [descend_apply, hstep]
  simp [h]

theorem grows_foldlM_descend (names : List String) (l : Location) :
    Moves (Grows fun _ => False) (names.foldlM descend l) :=
  .foldlM (Grows.refl fun _ => False) (fun _ _ _ => Grows.trans) moves_descend _ _

/-- Where the steps of a path led into a directory, they lead there again and nothing is made. -/
theorem foldlM_descend_again {names : List String}
    (h : (names.foldlM descend l : ExceptT FileFault (StateM Disk) Location) disk =
      (.ok reached, middle))
    (hreached : middle.lookup? reached = some .directory) (hgrows : middle.Grows written later) :
    (names.foldlM descend l : ExceptT FileFault (StateM Disk) Location) later =
      (.ok reached, later) ∧ later.lookup? l = some .directory := by
  induction names generalizing l disk with
  | nil =>
      cases h
      exact ⟨rfl, hgrows.directories _ hreached⟩
  | cons name rest ih =>
      have hall := grows_foldlM_descend (name :: rest) l disk
      rw [h] at hall
      rw [List.foldlM_cons] at h ⊢
      obtain ⟨next, first, hfirst, hrest⟩ := bind_eq_ok h
      obtain ⟨hagain, hnext⟩ := ih hrest
      have hlater : disk.Grows written later := (hall.mono fun _ h => h.elim).trans hgrows
      have hstep := step_of_descend hfirst
      refine ⟨?_, hlater.directories l ?_⟩
      · rw [run_bind (descend_of_directory (hlater.step hstep) hnext), hagain]
      · rw [step] at hstep
        split at hstep
        · cases hstep
        · cases hstep
        · assumption

theorem createDirectories_again (h : createDirectories path disk = (.ok (), middle))
    (hgrows : middle.Grows written later) :
    createDirectories path later = (.ok (), later) := by
  unfold createDirectories at h ⊢
  split
  · rfl
  · rename_i hpath
    rw [if_neg hpath] at h
    cases hfault : pathFault? path with
    | some fault =>
        rw [hfault] at h
        obtain ⟨_, _, hthrow, _⟩ := bind_eq_ok h
        exact absurd hthrow throw_ne_ok
    | none =>
        rw [hfault] at h
        obtain ⟨l, reached, hfold, h⟩ := bind_eq_ok h
        obtain ⟨found, _, hget, h⟩ := bind_eq_ok h
        cases hget
        cases hl : reached.lookup? l with
        | none => simp only [hl] at h; exact absurd h throw_ne_ok
        | some entry =>
            cases entry with
            | file content => simp only [hl] at h; exact absurd h throw_ne_ok
            | directory =>
                simp only [hl] at h
                obtain ⟨-, rfl⟩ := pure_eq_ok h
                obtain ⟨hagain, _⟩ := foldlM_descend_again hfold hl hgrows
                have hget : (get : ExceptT FileFault (StateM Disk) Disk) later =
                    (.ok later, later) := rfl
                refine (run_bind hagain).trans ((run_bind hget).trans ?_)
                simp only [hgrows.directories l hl]
                rfl

/-! ## A file written again -/

theorem put_put (disk : Disk) (l : Location) (entry : DiskEntry) :
    (disk.put l entry).put l entry = disk.put l entry := by
  simp [put]

theorem lookup?_put_of_writeLocation (h : disk.writeLocation path = .ok l) (entry : DiskEntry) :
    (disk.put l entry).lookup? l = some entry := by
  obtain ⟨-, hfile⟩ := of_writeLocation h
  have hnames : l.names ≠ [] := fun hbase => hfile (by simp [lookup?, hbase])
  rw [lookup?_put, if_pos ⟨rfl, hnames⟩]

theorem writeLocation_put (h : disk.writeLocation path = .ok l) (content : FileContent) :
    (disk.put l (.file content)).writeLocation path = .ok l := by
  have hheld := lookup?_put_of_writeLocation h (.file content)
  have hgrows := grows_put (of_writeLocation h).2 content
  rw [writeLocation] at h
  cases hfollow : disk.follow path (Path.names path) with
  | error fault => rw [hfollow] at h; cases h
  | ok reached =>
      simp only [hfollow, bind, Except.bind] at h
      split at h
      · cases h
      · rename_i hplace
        cases h
        rw [Bool.or_eq_true, not_or] at hplace
        simp only [writeLocation, hgrows.follow hfollow, bind, Except.bind]
        rw [if_neg]
        simp [hplace.1, hheld]

theorem write_again {content : FileContent} (h : disk.write path content = .ok later) :
    later.write path content = .ok later := by
  rw [write] at h
  cases hlocation : disk.writeLocation path with
  | error fault => rw [hlocation] at h; cases h
  | ok l =>
      rw [hlocation] at h
      cases h
      rw [write, writeLocation_put hlocation]
      exact congrArg Except.ok (put_put disk l _)

end Disk

namespace Ledger

variable {disk later : Disk} {path text : String} {ledger : Ledger} {l : Location}

/-- A ledger is loaded from the file that holds its text. -/
theorem load_of_holds (h : disk.Holds path ledger.write l) :
    (load path : ExceptT LoadFault (StateM Disk) Ledger) disk = (.ok ledger, disk) := by
  have hexists : (liftM (FileAccess.pathExists path : StateM Disk Bool) :
      ExceptT LoadFault (StateM Disk) Bool) disk = (.ok true, disk) := by
    rw [Disk.pathExists_apply, h.pathExists]
  have hread : ((FileAccess.readText path : ExceptT FileFault (StateM Disk) String).adapt
      LoadFault.file) disk = (.ok ledger.write, disk) := by
    rw [adapt_apply, Disk.readText_apply, h.readText]
    rfl
  rw [load, run_bind hexists, if_pos rfl, run_bind hread, read_write]
  rfl

theorem save_again (h : (save path ledger : ExceptT FileFault (StateM Disk) Unit) disk =
      (.ok (), later)) :
    (save path ledger : ExceptT FileFault (StateM Disk) Unit) later = (.ok (), later) := by
  obtain ⟨_, middle, hmade, hwritten⟩ := bind_eq_ok h
  have hwrite := Disk.of_writeText hwritten
  obtain ⟨l, _, hgrows⟩ := Disk.of_write hwrite
  have hdirectories : (FileAccess.createDirectories (Path.parent path) :
      ExceptT FileFault (StateM Disk) Unit) later = (.ok (), later) :=
    Disk.createDirectories_again hmade hgrows
  have htext : (liftM (later.write path (.text ledger.write)) :
      ExceptT FileFault (StateM Disk) Disk) later = (.ok later, later) := by
    rw [Disk.write_again hwrite]
    rfl
  rw [save, run_bind hdirectories]
  exact run_bind htext

/-- The text of a ledger's file is read back as the ledger, and what is read back has this text. On
a disk, a ledger that was saved is loaded again, and saving it again leaves everything as it is. -/
theorem loaded_and_saved (ledger : Ledger) :
    read ledger.write = .ok ledger ∧
    (read ledger.write).map write = .ok ledger.write ∧
    ∀ (disk later : Disk) (path : String),
      (save path ledger : ExceptT FileFault (StateM Disk) Unit) disk = (.ok (), later) →
      later.readText path = .ok ledger.write ∧
      (load path : ExceptT LoadFault (StateM Disk) Ledger) later = (.ok ledger, later) ∧
      (save path ledger : ExceptT FileFault (StateM Disk) Unit) later = (.ok (), later) := by
  refine ⟨read_write ledger, congrArg (Except.map write) (read_write ledger),
    fun disk later path h => ?_⟩
  obtain ⟨_, middle, hmade, hwritten⟩ := bind_eq_ok h
  obtain ⟨l, hholds, _⟩ := Disk.of_save hmade hwritten
  exact ⟨hholds.readText, load_of_holds hholds, save_again h⟩

/-- A path with quotes, a backslash, a line break and a control character, an empty field name, the
largest tag, and a message without fields. -/
theorem loaded_and_saved_quoted :
    let ledger : Ledger := ⟨SortedMap.ofList [("", ∅),
      ("/m/\"a\"\\\n\x01", SortedMap.ofList [("", 4294967295), ("x", 1)])]⟩
    let path := "state/tags.json"
    ∃ later : Disk,
      (save path ledger : ExceptT FileFault (StateM Disk) Unit) Disk.empty = (.ok (), later) ∧
      read ledger.write = .ok ledger ∧
      later.readText path = .ok ledger.write ∧
      (load path : ExceptT LoadFault (StateM Disk) Ledger) later = (.ok ledger, later) ∧
      (save path ledger : ExceptT FileFault (StateM Disk) Unit) later = (.ok (), later) := by
  intro ledger path
  obtain ⟨hread, -, hdisk⟩ := loaded_and_saved ledger
  have hsaved : ((save path ledger : ExceptT FileFault (StateM Disk) Unit)
      Disk.empty).1.toOption.isSome = true := by
    decide +kernel
  generalize hrun : (save path ledger : ExceptT FileFault (StateM Disk) Unit) Disk.empty = ran
    at hsaved
  obtain ⟨outcome, later⟩ := ran
  obtain ⟨⟨⟩, rfl⟩ := exists_eq_ok_of_isSome hsaved
  exact ⟨later, rfl, hread, hdisk Disk.empty later path hrun⟩

end Ledger

end YangToProto

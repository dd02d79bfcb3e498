import YangToProto.Files.Disk
import YangToProto.Proofs.Running

/-!
# Saving files

A file that is saved is read back (`Disk.of_save`). Saving changes nothing else: directories are
made only where there was nothing, so paths lead where they led before (`Disk.Grows.locate`) and
other files hold what they held (`Disk.Grows.holds`).
-/

namespace YangToProto

namespace Disk

variable {disk middle later : Disk} {written : Location → Prop} {l : Location} {path text : String}

/-- The place to which a path leads. Whether there is anything is another matter. -/
def locate (disk : Disk) (path : String) : Except FileFault Location :=
  disk.follow path (Path.steps path)

/-- The path leads to a place at which there is a file with the text. -/
structure Holds (disk : Disk) (path text : String) (l : Location) : Prop where
  locate : disk.locate path = .ok l
  lookup? : disk.lookup? l = some (.file (.text text))

/-- The paths lead to the same place. -/
def SamePlace (disk : Disk) (path other : String) : Prop :=
  ∃ l, disk.locate path = .ok l ∧ disk.locate other = .ok l

instance (disk : Disk) (path other : String) : Decidable (disk.SamePlace path other) :=
  match h : disk.locate path, h' : disk.locate other with
  | .ok l, .ok reached =>
    if heq : l = reached then isTrue ⟨l, h, heq ▸ h'⟩
    else isFalse fun ⟨_, hl, hl'⟩ =>
      heq ((Except.ok.inj (h.symm.trans hl)).trans (Except.ok.inj (h'.symm.trans hl')).symm)
  | .error _, _ => isFalse fun ⟨_, hl, _⟩ => nomatch h.symm.trans hl
  | .ok _, .error _ => isFalse fun ⟨_, _, hl'⟩ => nomatch h'.symm.trans hl'

/-- A disk on which nothing is lost and only certain files are written. -/
structure Grows (written : Location → Prop) (disk later : Disk) : Prop where
  directories : ∀ l, disk.lookup? l = some .directory → later.lookup? l = some .directory
  others : ∀ l entry, ¬ written l → disk.lookup? l = some entry → later.lookup? l = some entry

namespace Grows

theorem refl (written : Location → Prop) (disk : Disk) : disk.Grows written disk :=
  ⟨fun _ h => h, fun _ _ _ h => h⟩

theorem trans (h : disk.Grows written middle) (h' : middle.Grows written later) :
    disk.Grows written later :=
  ⟨fun l hl => h'.directories l (h.directories l hl),
    fun l entry hw hl => h'.others l entry hw (h.others l entry hw hl)⟩

theorem mono {more : Location → Prop} (h : disk.Grows written later)
    (hmore : ∀ l, written l → more l) : disk.Grows more later :=
  ⟨h.directories, fun l entry hw => h.others l entry fun hl => hw (hmore l hl)⟩

theorem step (h : disk.Grows written later) {name : String} {next : Location}
    (hstep : disk.step l name = .ok next) : later.step l name = .ok next := by
  rw [Disk.step] at hstep ⊢
  split at hstep
  · cases hstep
  · cases hstep
  · rename_i hl
    rw [h.directories l hl]
    exact hstep

theorem follow (h : disk.Grows written later) {steps : List String}
    (hfollow : disk.follow path steps = .ok l) : later.follow path steps = .ok l := by
  rw [Disk.follow] at hfollow ⊢
  split at hfollow
  · cases hfollow
  · rename_i hpath
    generalize Location.start path = start at hfollow ⊢
    induction steps generalizing start with
    | nil => exact hfollow
    | cons name rest ih =>
        rw [List.foldlM_cons] at hfollow ⊢
        cases hstep : disk.step start name with
        | error fault => rw [hstep] at hfollow; cases hfollow
        | ok next =>
            rw [hstep] at hfollow
            rw [h.step hstep]
            exact ih next hfollow

theorem locate (h : disk.Grows written later) (hlocate : disk.locate path = .ok l) :
    later.locate path = .ok l := h.follow hlocate

theorem holds (h : disk.Grows written later) (hholds : disk.Holds path text l)
    (hwritten : ¬ written l) : later.Holds path text l :=
  ⟨h.locate hholds.locate, h.others l _ hwritten hholds.lookup?⟩

end Grows

/-! ## Reading -/

theorem readText_apply (path : String) (disk : Disk) :
    (FileAccess.readText path : ExceptT FileFault (StateM Disk) String) disk =
      (disk.readText path, disk) := rfl

theorem pathExists_apply {ε : Type} (path : String) (disk : Disk) :
    (liftM (FileAccess.pathExists path : StateM Disk Bool) : ExceptT ε (StateM Disk) Bool) disk =
      (.ok (disk.pathExists path), disk) := rfl

theorem Holds.find (h : disk.Holds path text l) : disk.find path = .ok (.file (.text text)) := by
  have hlocate : disk.follow path (Path.steps path) = .ok l := h.locate
  simp only [Disk.find, hlocate, bind, Except.bind, h.lookup?]

theorem Holds.readText (h : disk.Holds path text l) : disk.readText path = .ok text := by
  rw [Disk.readText, h.find]
  rfl

theorem Holds.pathExists (h : disk.Holds path text l) : disk.pathExists path = true := by
  rw [Disk.pathExists, h.find]
  rfl

theorem exists_holds_of_readText (h : disk.readText path = .ok text) :
    ∃ l, disk.Holds path text l := by
  rw [Disk.readText, Disk.find] at h
  cases hlocate : disk.follow path (Path.steps path) with
  | error fault => rw [hlocate] at h; cases h
  | ok l =>
      rw [hlocate] at h
      cases hl : disk.lookup? l with
      | none =>
          simp only [hl, bind, Except.bind] at h
          cases h
      | some entry =>
          simp only [hl, bind, Except.bind] at h
          match entry, h with
          | .directory, h => cases h
          | .file .binary, h => cases h
          | .file (.text _), h =>
              cases h
              exact ⟨l, hlocate, hl⟩

/-! ## Directories -/

theorem grows_put (h : disk.lookup? l ≠ some .directory) (content : FileContent) :
    disk.Grows (· = l) (disk.put l (.file content)) := by
  constructor
  · intro k hk
    rw [lookup?_put, if_neg]
    · exact hk
    · rintro ⟨rfl, _⟩
      exact h hk
  · intro k entry hk hentry
    rw [lookup?_put, if_neg fun heq => hk heq.1]
    exact hentry

theorem grows_put_directory (h : disk.lookup? l = none) :
    disk.Grows (fun _ => False) (disk.put l .directory) := by
  have hother : ∀ {k entry}, disk.lookup? k = some entry →
      (disk.put l .directory).lookup? k = some entry := by
    intro k entry hk
    rw [lookup?_put, if_neg]
    · exact hk
    · rintro ⟨rfl, _⟩
      rw [h] at hk
      cases hk
  exact ⟨fun _ hk => hother hk, fun _ _ _ hk => hother hk⟩

theorem descend_apply (l : Location) (name : String) (disk : Disk) :
    descend l name disk =
      match disk.step l name with
      | .error fault => (.error fault, disk)
      | .ok next =>
        (.ok next, if (disk.lookup? next).isNone then disk.put next .directory else disk) := by
  rw [descend, bind_apply]
  change ((liftM (disk.step l name) : ExceptT FileFault (StateM Disk) Location) >>= _) disk = _
  rw [bind_apply]
  cases hstep : disk.step l name with
  | error fault => rfl
  | ok next =>
    change (if (disk.lookup? next).isNone = true then do
        set (disk.put next .directory)
        pure next
      else pure next : ExceptT FileFault (StateM Disk) Location) disk = (.ok next, _)
    split
    · rfl
    · rfl

theorem moves_descend (l : Location) (name : String) :
    Moves (Grows fun _ => False) (descend l name) := by
  intro disk
  rw [descend_apply]
  cases disk.step l name with
  | error fault => exact .refl _ _
  | ok next =>
      dsimp only
      split
      · rename_i hnone
        exact grows_put_directory (Option.isNone_iff_eq_none.1 hnone)
      · exact .refl _ _

theorem moves_createDirectories (path : String) :
    Moves (Grows fun _ => False) (createDirectories path) := by
  have hrefl := Grows.refl fun _ => False
  have htrans : ∀ first second third : Disk, first.Grows (fun _ => False) second →
      second.Grows (fun _ => False) third → first.Grows (fun _ => False) third :=
    fun _ _ _ => Grows.trans
  unfold createDirectories
  split
  · exact .pure hrefl ()
  · split
    · refine .bind htrans (.throw hrefl _) fun _ => ?_
      refine .bind htrans (.foldlM hrefl htrans moves_descend _ _) fun l => ?_
      refine .bind htrans hrefl fun reached => ?_
      split
      · exact .pure hrefl ()
      · exact .throw hrefl _
    · refine .bind htrans (.foldlM hrefl htrans moves_descend _ _) fun l => ?_
      refine .bind htrans hrefl fun reached => ?_
      split
      · exact .pure hrefl ()
      · exact .throw hrefl _

/-! ## Files -/

theorem of_writeLocation (h : disk.writeLocation path = .ok l) :
    disk.locate path = .ok l ∧ disk.lookup? l ≠ some .directory := by
  rw [writeLocation] at h
  cases hfollow : disk.follow path (Path.names path) with
  | error fault => rw [hfollow] at h; cases h
  | ok reached =>
      simp only [hfollow, bind, Except.bind] at h
      split at h
      · cases h
      · rename_i hfile
        cases h
        rw [Bool.or_eq_true, not_or, beq_iff_eq, Bool.not_eq_true] at hfile
        refine ⟨?_, hfile.2⟩
        rw [locate, Path.steps, hfile.1]
        exact hfollow

theorem of_write (h : disk.write path (.text text) = .ok later) :
    ∃ l, later.Holds path text l ∧ disk.Grows (· = l) later := by
  rw [write] at h
  cases hlocation : disk.writeLocation path with
  | error fault => rw [hlocation] at h; cases h
  | ok l =>
      rw [hlocation] at h
      cases h
      obtain ⟨hlocate, hfile⟩ := of_writeLocation hlocation
      have hgrows := grows_put hfile (.text text)
      have hnames : l.names ≠ [] := fun hbase => hfile (by simp [lookup?, hbase])
      refine ⟨l, ⟨hgrows.locate hlocate, ?_⟩, hgrows⟩
      rw [lookup?_put, if_pos ⟨rfl, hnames⟩]

theorem of_writeText
    (h : (FileAccess.writeText path text : ExceptT FileFault (StateM Disk) Unit) disk =
      (.ok (), later)) : disk.write path (.text text) = .ok later := by
  change ((liftM (disk.write path (.text text)) : ExceptT FileFault (StateM Disk) Disk) >>=
    fun next => set next) disk = (.ok (), later) at h
  obtain ⟨next, middle, hwrite, hset⟩ := bind_eq_ok h
  obtain ⟨hnext, _⟩ := lift_except_eq_ok hwrite
  cases hset
  exact hnext

/-- A file that was saved is there, and no other one has changed. -/
theorem of_save {dir : String}
    (hmade : (FileAccess.createDirectories dir : ExceptT FileFault (StateM Disk) Unit) disk =
      (.ok (), middle))
    (hwritten : (FileAccess.writeText path text : ExceptT FileFault (StateM Disk) Unit) middle =
      (.ok (), later)) :
    ∃ l, later.Holds path text l ∧ disk.Grows (· = l) later := by
  have hfirst := moves_createDirectories dir disk
  have hmade : createDirectories dir disk = (.ok (), middle) := hmade
  rw [hmade] at hfirst
  obtain ⟨l, hholds, hsecond⟩ := of_write (of_writeText hwritten)
  exact ⟨l, hholds, (hfirst.mono fun _ h => h.elim).trans hsecond⟩

end Disk

end YangToProto

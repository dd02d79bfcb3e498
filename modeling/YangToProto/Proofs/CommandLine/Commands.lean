import YangToProto.CommandLine.Run
import YangToProto.Proofs.Generation.Drift
import YangToProto.Proofs.Ledger.FilesOnDisk

/-!
# Commands on a disk

What the commands do when they run on a disk. Settings, ledgers and schemas are read and left as
they are (`Settings.reads_load`, `Command.of_generated`). Generating writes the files and then the
ledger (`Command.of_runGenerate`), checking compares the files that it would write with the disk
(`Command.runCheck_eq`). A run does what its command does with the settings
(`CommandLine.run_of_settings`).
-/

namespace YangToProto

namespace Settings

theorem firstFile_apply (places : List (String × SettingsFormat)) (disk : Disk) :
    ((firstFile places : StateM Disk _) disk).2 = disk := by
  induction places with
  | nil => rfl
  | cons place rest ih =>
      obtain ⟨path, format⟩ := place
      change ((if disk.isFile path then Pure.pure (some (path, format)) else firstFile rest :
        StateM Disk _) disk).2 = disk
      split
      · rfl
      · exact ih

theorem reads_findFile (path : String) :
    Reads (findFile path : ExceptT SettingsFault (StateM Disk) _) := by
  rw [findFile]
  refine .bind (.lift_state fun _ => rfl) fun isThere => ?_
  split
  · split
    · exact .pure _
    · exact .throw _
  · refine .bind (.lift_state (firstFile_apply _)) fun found => ?_
    split
    · exact .pure _
    · exact .throw _

theorem reads_findText (path : String) :
    Reads (findText path : ExceptT SettingsFault (StateM Disk) _) :=
  .bind (reads_findFile path) fun (_, _) => .bind (fun _ => rfl) fun _ => .pure _

theorem reads_requiredFile (path : String) :
    Reads (requiredFile path : ExceptT SettingsFault (StateM Disk) _) :=
  .bind (reads_findText path) fun _ => .lift_except _

theorem reads_optionalFile (path : String) :
    Reads (optionalFile path : ExceptT SettingsFault (StateM Disk) _) := by
  rw [optionalFile]
  refine .bind (.tryCatch ?_ fun _ => .pure none) fun found => ?_
  · exact Reads.bind (reads_findText path) fun _ => .pure _
  · split
    · exact .lift_except _
    · exact .pure _

theorem reads_userSource (dir : Option String) :
    Reads (userSource dir : ExceptT SettingsFault (StateM Disk) _) := by
  cases dir with
  | none => exact .pure _
  | some dir =>
    refine .bind (.lift_state fun _ => rfl) fun isThere => ?_
    split
    · exact reads_optionalFile _
    · exact .pure _

/-- Loading settings changes no file. -/
theorem reads_load (userDir path : Option String) (environment : Environment) :
    Reads (load userDir path environment : ExceptT SettingsFault (StateM Disk) Settings) := by
  rw [load]
  refine .bind (.mapM reads_optionalFile _) fun fixed => ?_
  refine .bind (reads_userSource userDir) fun user => ?_
  cases path with
  | none => exact .bind (.pure _) fun _ => .lift_except _
  | some path => exact .bind (reads_requiredFile path) fun _ => .lift_except _

end Settings

/-! ## The files of a schema -/

namespace Command

variable {settings : Settings} {options : SchemaOptions} {config : Config} {sources : Sources}
  {disk middle after : Disk} {input path text : String} {tree : Tree} {start ledger : Ledger}
  {output : Output} {l : Location}

theorem reads_loadLedger (config : Config) :
    Reads (loadLedger config : ExceptT CommandFault (StateM Disk) Ledger) := by
  rw [loadLedger]
  split
  · rename_i path _
    have hload : Reads (Ledger.load path : ExceptT Ledger.LoadFault (StateM Disk) Ledger) := by
      rw [Ledger.load]
      refine .bind (.lift_state fun _ => rfl) fun isThere => ?_
      split
      · refine .bind (fun _ => rfl) fun text => ?_
        split
        · exact .pure _
        · exact .throw _
      · exact .pure _
    exact hload
  · exact .pure _

/-- A ledger that was saved is loaded again. -/
theorem loadLedger_of_holds (hpath : config.tagLedger = some path)
    (h : disk.Holds path ledger.write l) :
    (loadLedger config : ExceptT CommandFault (StateM Disk) Ledger) disk = (.ok ledger, disk) := by
  rw [loadLedger, hpath]
  change ((Ledger.load path : ExceptT Ledger.LoadFault (StateM Disk) Ledger).adapt _) disk = _
  rw [adapt_apply, Ledger.load_of_holds h]
  rfl

theorem loadLedger_of_none (hpath : config.tagLedger = none) (disk : Disk) :
    (loadLedger config : ExceptT CommandFault (StateM Disk) Ledger) disk = (.ok ∅, disk) := by
  rw [loadLedger, hpath]
  rfl

theorem readSchema_apply (input : String) (disk : Disk) :
    (readSchema input : ExceptT CommandFault (StateM Disk) Tree) disk =
      (match disk.readText input with
        | .error fault => .error (.readSchema input fault)
        | .ok text => (Tree.read text).mapError (CommandFault.schema input), disk) := by
  rw [readSchema, bind_apply, adapt_apply, Disk.readText_apply]
  cases disk.readText input with
  | error fault => rfl
  | ok text =>
      cases hread : Tree.read text with
      | error fault => simp [hread, Except.mapError]; rfl
      | ok tree => simp [hread, Except.mapError]; rfl

theorem generated_apply
    (hledger : (loadLedger config : ExceptT CommandFault (StateM Disk) Ledger) disk =
      (.ok start, disk))
    (htext : disk.readText input = .ok text) (htree : Tree.read text = .ok tree) :
    (generated config sources input : ExceptT CommandFault (StateM Disk) (Output × Ledger)) disk =
      (match tree.generate config sources start with
        | (.ok output, ledger) => .ok (output, ledger)
        | (.error errors, _) => .error (.generation errors), disk) := by
  have hschema : (readSchema input : ExceptT CommandFault (StateM Disk) Tree) disk =
      (.ok tree, disk) := by
    rw [readSchema_apply, htext]
    simp only [htree, Except.mapError]
  rw [generated, run_bind hledger, run_bind hschema]
  cases tree.generate config sources start with
  | mk outcome ledger =>
      cases outcome with
      | ok output => rfl
      | error errors => rfl

theorem of_generated
    (h : (generated config sources input : ExceptT CommandFault (StateM Disk) (Output × Ledger))
      disk = (.ok (output, ledger), after)) :
    after = disk ∧ ∃ start text tree,
      (loadLedger config : ExceptT CommandFault (StateM Disk) Ledger) disk = (.ok start, disk) ∧
      disk.readText input = .ok text ∧ Tree.read text = .ok tree ∧
      tree.generate config sources start = (.ok output, ledger) := by
  have hparts := h
  rw [generated] at hparts
  obtain ⟨start, middle, hledger, hparts⟩ := bind_eq_ok hparts
  obtain ⟨tree, reached, hschema, _⟩ := bind_eq_ok hparts
  have hsame : middle = disk := by simpa only [hledger] using reads_loadLedger config disk
  rw [hsame] at hledger hschema
  rw [readSchema_apply, Prod.mk.injEq] at hschema
  cases htext : disk.readText input with
  | error fault => rw [htext] at hschema; cases hschema.1
  | ok text =>
      rw [htext] at hschema
      cases htree : Tree.read text with
      | error fault => simp [htree, Except.mapError] at hschema
      | ok found =>
          simp only [htree, Except.mapError, Except.ok.injEq] at hschema
          obtain ⟨rfl, rfl⟩ := hschema
          rw [generated_apply hledger htext htree, Prod.mk.injEq] at h
          refine ⟨h.2.symm, start, text, found, hledger, rfl, htree, ?_⟩
          cases hrun : found.generate config sources start with
          | mk outcome reached =>
              rw [hrun] at h
              cases outcome with
              | error errors => cases h.1
              | ok made =>
                  cases h.1
                  rfl

theorem generated_eq
    (h : ((generated config sources input : ExceptT CommandFault (StateM Disk) (Output × Ledger))
      disk).1 = .ok (output, ledger)) :
    (generated config sources input : ExceptT CommandFault (StateM Disk) (Output × Ledger)) disk =
      (.ok (output, ledger), disk) := by
  obtain ⟨hsame, _⟩ := of_generated (Prod.ext h rfl)
  exact Prod.ext h hsame

/-- On the disk there are a schema and a ledger that give certain files. -/
structure Makes (config : Config) (sources : Sources) (input : String) (disk : Disk)
    (tree : Tree) (output : Output) : Prop where
  schema : ∃ text, disk.readText input = .ok text ∧ Tree.read text = .ok tree
  files : ∃ start, (loadLedger config : ExceptT CommandFault (StateM Disk) Ledger) disk =
    (.ok start, disk) ∧ (tree.generate config sources start).1 = .ok output

theorem exists_makes
    (h : (generated config sources input : ExceptT CommandFault (StateM Disk) (Output × Ledger))
      disk = (.ok (output, ledger), disk)) :
    ∃ tree, Makes config sources input disk tree output := by
  obtain ⟨_, start, text, tree, hledger, htext, htree, hmade⟩ := of_generated h
  exact ⟨tree, ⟨text, htext, htree⟩, ⟨start, hledger, congrArg Prod.fst hmade⟩⟩

theorem Makes.generated (h : Makes config sources input disk tree output) :
    ∃ ledger, (Command.generated config sources input :
      ExceptT CommandFault (StateM Disk) (Output × Ledger)) disk =
        (.ok (output, ledger), disk) := by
  obtain ⟨⟨text, htext, htree⟩, start, hledger, hmade⟩ := h
  rw [generated_apply hledger htext htree]
  cases hrun : tree.generate config sources start with
  | mk outcome ledger =>
      rw [hrun] at hmade
      cases hmade
      exact ⟨ledger, rfl⟩

/-! ## Generating and checking -/

theorem of_saveLedger
    (h : (saveLedger config ledger : ExceptT CommandFault (StateM Disk) Unit) disk =
      (.ok (), after)) (hpath : config.tagLedger = some path) :
    ∃ l, after.Holds path ledger.write l ∧ disk.Grows (· = l) after := by
  rw [saveLedger, hpath] at h
  have hsave := adapt_eq_ok h
  obtain ⟨_, middle, hmade, hwritten⟩ := bind_eq_ok hsave
  exact Disk.of_save hmade hwritten

theorem saveLedger_of_none
    (h : (saveLedger config ledger : ExceptT CommandFault (StateM Disk) Unit) disk =
      (.ok (), after)) (hpath : config.tagLedger = none) : after = disk := by
  rw [saveLedger, hpath] at h
  exact (pure_eq_ok h).2.symm

/-- Files are written and the ledger is saved behind them. -/
theorem of_runGenerate {report : CommandReport}
    (h : (runGenerate settings options : ExceptT CommandFault (StateM Disk) CommandReport) disk =
      (.ok report, after)) :
    ∃ output ledger middle,
      (generated (options.generator settings) settings.sources options.input :
        ExceptT CommandFault (StateM Disk) (Output × Ledger)) disk = (.ok (output, ledger), disk) ∧
      report = .ofWritten (options.outputDir settings)
        (output.toList.map (ProtoFile.pathIn (options.outputDir settings))) ∧
      middle.HoldsAll (options.outputDir settings) output.toList ∧
      disk.Grows (middle.IsPlaceOf (options.outputDir settings) output.toList) middle ∧
      (saveLedger (options.generator settings) ledger :
        ExceptT CommandFault (StateM Disk) Unit) middle = (.ok (), after) := by
  rw [runGenerate] at h
  obtain ⟨⟨output, ledger⟩, first, hgenerated, h⟩ := bind_eq_ok h
  obtain ⟨paths, middle, hwritten, h⟩ := bind_eq_ok h
  obtain ⟨_, ended, hsaved, h⟩ := bind_eq_ok h
  obtain ⟨rfl, rfl⟩ := pure_eq_ok h
  obtain ⟨rfl, _⟩ := of_generated hgenerated
  obtain ⟨rfl, hall, hgrows⟩ := of_writeAll (adapt_eq_ok hwritten)
  exact ⟨output, ledger, middle, hgenerated, rfl, hall, hgrows, hsaved⟩

/-- Without a ledger, generating ends where the files are written. -/
theorem runGenerate_of_none {paths : List String}
    (hgenerated : (generated (options.generator settings) settings.sources options.input :
      ExceptT CommandFault (StateM Disk) (Output × Ledger)) disk = (.ok (output, ledger), disk))
    (hwritten : (output.writeTo (options.outputDir settings) :
      ExceptT FileFault (StateM Disk) (List String)) disk = (.ok paths, after))
    (hpath : (options.generator settings).tagLedger = none) :
    (runGenerate settings options : ExceptT CommandFault (StateM Disk) CommandReport) disk =
      (.ok (.ofWritten (options.outputDir settings) paths), after) := by
  have hadapted : ((output.writeTo (options.outputDir settings) :
      ExceptT FileFault (StateM Disk) (List String)).adapt
        (CommandFault.writeFiles (options.outputDir settings))) disk = (.ok paths, after) := by
    rw [adapt_apply, hwritten]
    rfl
  rw [runGenerate, run_bind hgenerated]
  refine (run_bind hadapted).trans ?_
  rw [saveLedger, hpath]
  rfl

theorem runCheck_eq
    (h : (generated (options.generator settings) settings.sources options.input :
      ExceptT CommandFault (StateM Disk) (Output × Ledger)) disk = (.ok (output, ledger), disk))
    (hall : disk.HoldsAll (options.outputDir settings) output.toList) :
    (runCheck settings options : ExceptT CommandFault (StateM Disk) CommandReport) disk =
      (.ok (.ofDrifts (disk.drifts (options.outputDir settings) output.toList)), disk) := by
  have hdrift : ((output.drift (options.outputDir settings) :
      ExceptT FileFault (StateM Disk) (List FileDrift)).adapt
        (CommandFault.readFiles (options.outputDir settings))) disk =
        (.ok (disk.drifts (options.outputDir settings) output.toList), disk) := by
    rw [adapt_apply, Output.drift, driftAll_eq hall]
    rfl
  rw [runCheck, run_bind h]
  exact run_bind hdrift

end Command

/-! ## Reports -/

namespace CommandReport

/-- All is well exactly if no file has drifted. -/
theorem isFine_ofDrifts_iff {drifts : List FileDrift} :
    (ofDrifts drifts).isFine = true ↔ ∀ drift ∈ drifts, drift.isDrifted = false := by
  simp [ofDrifts, List.filter_eq_nil_iff]

end CommandReport

/-! ## Runs -/

def Exit.ofOutcome : Except CommandFault CommandReport → Exit
  | .ok report => ⟨if report.isFine then 0 else 1, report.text, ""⟩
  | .error fault => ⟨1, "", "Error: " ++ fault.message ++ "\n"⟩

theorem Exit.ofOutcome_ok_eq_iff {report other : CommandReport} (hother : other.isFine = true)
    (heq : report.isFine = true → report = other) :
    Exit.ofOutcome (.ok report) = ⟨0, other.text, ""⟩ ↔ report.isFine = true := by
  constructor
  · intro h
    cases hfine : report.isFine with
    | true => rfl
    | false =>
        rw [Exit.ofOutcome, hfine, Exit.mk.injEq] at h
        exact absurd h.1 (by decide)
  · intro h
    rw [heq h, Exit.ofOutcome, if_pos hother]

namespace CommandLine

variable {surroundings : Surroundings} {arguments : List String} {file : Option String}
  {command : Command} {settings : Settings} {disk : Disk}

def settingsOn (surroundings : Surroundings) (file : Option String) (disk : Disk) :
    Except SettingsFault Settings :=
  ((Settings.load surroundings.userDir file surroundings.environment :
    ExceptT SettingsFault (StateM Disk) Settings) disk).1

/-- A run does what its command does with the settings. -/
theorem run_of_settings (harguments : Invocation.ofArguments arguments = .ok ⟨file, command⟩)
    (hsettings : settingsOn surroundings file disk = .ok settings) :
    (run surroundings arguments : StateM Disk Exit) disk =
      (Exit.ofOutcome ((command.run settings : ExceptT CommandFault (StateM Disk) _) disk).1,
        ((command.run settings : ExceptT CommandFault (StateM Disk) _) disk).2) := by
  have hload : ((Settings.load surroundings.userDir file surroundings.environment :
      ExceptT SettingsFault (StateM Disk) Settings).adapt CommandFault.settings) disk =
        (.ok settings, disk) := by
    have hsame := Settings.reads_load surroundings.userDir file surroundings.environment disk
    rw [settingsOn] at hsettings
    rw [adapt_apply, hsettings, hsame]
    rfl
  have hinvoke : (invoke surroundings ⟨file, command⟩ :
      ExceptT CommandFault (StateM Disk) CommandReport) disk =
        (command.run settings : ExceptT CommandFault (StateM Disk) CommandReport) disk :=
    run_bind hload
  rw [run, harguments]
  change (match (invoke surroundings ⟨file, command⟩ :
      ExceptT CommandFault (StateM Disk) CommandReport) disk with
    | (outcome, after) => (match outcome with
      | .ok report => pure ⟨if report.isFine then 0 else 1, report.text, ""⟩
      | .error fault => pure ⟨1, "", "Error: " ++ fault.message ++ "\n"⟩ : StateM Disk Exit)
        after) = _
  rw [hinvoke]
  cases (command.run settings : ExceptT CommandFault (StateM Disk) CommandReport) disk with
  | mk outcome after =>
      cases outcome with
      | ok report => rfl
      | error fault => rfl

end CommandLine

end YangToProto

import YangToProto.Proofs.CommandLine.Commands
import YangToProto.Proofs.Generation.PackageFiles
import YangToProto.Proofs.Generation.SavedLedger
import YangToProto.Proofs.Ledger.NotSchema

/-!
# Checking what was generated

Generating writes the files and saves the ledger; checking with the same options then generates the
same files from the saved ledger (`Command.generated_again`) and compares them with what was
written.
-/

namespace YangToProto

open Disk

variable {settings : Settings} {options : SchemaOptions} {config : Config} {sources : Sources}
  {disk middle after : Disk} {input dir text path : String} {tree : Tree} {ledger : Ledger}
  {output : Output}

/-- Files that are written at one place have the same digest, so that it does not matter which of
them was written last. -/
def Output.AgreesAt (disk : Disk) (dir : String) (output : Output) : Prop :=
  ∀ file ∈ output.toList, ∀ other ∈ output.toList,
    disk.SamePlace (file.pathIn dir) (other.pathIn dir) →
    Digest.ofText file.content = Digest.ofText other.content

/-- None of the files is written at the place of a path. -/
def Output.SparesAt (disk : Disk) (dir : String) (output : Output) (path : String) : Prop :=
  ∀ file ∈ output.toList, ¬ disk.SamePlace (file.pathIn dir) path

theorem Output.sparesAt_iff : output.SparesAt disk dir path ↔
    ∀ written ∈ output.toList.map (·.pathIn dir), ¬ disk.SamePlace written path := by
  rw [SparesAt, List.forall_mem_map]

/-- The report on files none of which has drifted. -/
def Output.upToDate (dir : String) (output : Output) : CommandReport :=
  .ofDrifts (output.toList.map fun file => .upToDate (file.pathIn dir))

namespace Command

theorem grows_saveLedger
    (h : (saveLedger config ledger : ExceptT CommandFault (StateM Disk) Unit) middle =
      (.ok (), after)) :
    middle.Grows (fun l => ∃ path, config.tagLedger = some path ∧ after.locate path = .ok l)
      after := by
  cases hpath : config.tagLedger with
  | none =>
      rw [saveLedger_of_none h hpath]
      exact .refl _ _
  | some path =>
      obtain ⟨l, hholds, hgrows⟩ := of_saveLedger h hpath
      refine hgrows.mono ?_
      rintro _ rfl
      exact ⟨path, rfl, hholds.locate⟩

/-- The ledger is not saved over any of the files. -/
theorem holdsAll_saveLedger (hall : middle.HoldsAll dir output.toList)
    (h : (saveLedger config ledger : ExceptT CommandFault (StateM Disk) Unit) middle =
      (.ok (), after))
    (hspared : ∀ path, config.tagLedger = some path → output.SparesAt after dir path) :
    after.HoldsAll dir output.toList := by
  have hgrows := grows_saveLedger h
  refine hall.of_grows hgrows fun file hfile l hl => ?_
  rintro ⟨path, hpath, hledger⟩
  exact hspared path hpath file hfile ⟨l, hgrows.locate hl, hledger⟩

/-- Neither the files nor the ledger are written over the schema. -/
theorem readText_of_spared (htext : disk.readText input = .ok text)
    (hgrows : disk.Grows (middle.IsPlaceOf dir output.toList) middle)
    (h : (saveLedger config ledger : ExceptT CommandFault (StateM Disk) Unit) middle =
      (.ok (), after))
    (hfiles : output.SparesAt after dir input)
    (hledger : ∀ path, config.tagLedger = some path → ¬ after.SamePlace path input) :
    after.readText input = .ok text := by
  obtain ⟨l, hholds⟩ := exists_holds_of_readText htext
  have hsaved := grows_saveLedger h
  have hplace := hsaved.locate (hgrows.locate hholds.locate)
  have hmiddle : middle.Holds input text l := by
    refine hgrows.holds hholds ?_
    rintro ⟨file, hfile, hl⟩
    exact hfiles file hfile ⟨l, hsaved.locate hl, hplace⟩
  refine (hsaved.holds hmiddle ?_).readText
  rintro ⟨path, hpath, hl⟩
  exact hledger path hpath ⟨l, hl, hplace⟩

/-- What was generated before is generated again from the ledger that was saved. -/
theorem generated_again
    (h : (generated config sources input : ExceptT CommandFault (StateM Disk) (Output × Ledger))
      disk = (.ok (output, ledger), disk))
    (htext : after.readText input = disk.readText input)
    (hsaved : (saveLedger config ledger : ExceptT CommandFault (StateM Disk) Unit) middle =
      (.ok (), after)) :
    (generated config sources input : ExceptT CommandFault (StateM Disk) (Output × Ledger)) after =
      (.ok (output, ledger), after) := by
  obtain ⟨_, start, text, tree, hledger, hinput, htree, hrun⟩ := of_generated h
  rw [hinput] at htext
  cases hpath : config.tagLedger with
  | none =>
      have hstart : (∅ : Ledger) = start := by
        have hsame := (loadLedger_of_none hpath disk).symm.trans hledger
        exact Except.ok.inj (Prod.mk.inj hsame).1
      rw [generated_apply (loadLedger_of_none hpath after) htext htree, hstart, hrun]
  | some path =>
      obtain ⟨l, hholds, _⟩ := of_saveLedger hsaved hpath
      have hagain := Tree.generate_again config sources tree start
      rw [hrun] at hagain
      rw [generated_apply (loadLedger_of_holds hpath hholds) htext htree, hagain]

/-- Where the ledger was saved over the schema, nothing is generated any more. -/
theorem generated_of_samePlace (sources : Sources) (hpath : config.tagLedger = some path)
    (hsaved : (saveLedger config ledger : ExceptT CommandFault (StateM Disk) Unit) middle =
      (.ok (), after)) (hsame : after.SamePlace path input) :
    (generated config sources input : ExceptT CommandFault (StateM Disk) (Output × Ledger)) after =
      (.error (.schema input (.json (.misfit (.missingField "name")))), after) := by
  obtain ⟨l, hholds, _⟩ := of_saveLedger hsaved hpath
  obtain ⟨reached, hl, hinput⟩ := hsame
  rw [hholds.locate, Except.ok.injEq] at hl
  subst hl
  have htext : after.readText input = .ok ledger.write :=
    Holds.readText ⟨hinput, hholds.lookup?⟩
  have hschema : (readSchema input : ExceptT CommandFault (StateM Disk) Tree) after =
      (.error (.schema input (.json (.misfit (.missingField "name")))), after) := by
    rw [readSchema_apply, htext]
    simp only [Tree.read, Ledger.read_node_write, Except.mapError]
  rw [generated, run_bind (loadLedger_of_holds hpath hholds), bind_apply, hschema]

end Command

/-! ## Reports -/

namespace Output

theorem isFine_upToDate (dir : String) (output : Output) : (output.upToDate dir).isFine = true := by
  refine CommandReport.isFine_ofDrifts_iff.2 fun drift hdrift => ?_
  obtain ⟨file, _, rfl⟩ := List.mem_map.1 hdrift
  rfl

/-- All is well exactly if files at one place agree, and then every file is reported unchanged. -/
theorem isFine_drifts_iff (hall : disk.HoldsAll dir output.toList) :
    (CommandReport.ofDrifts (disk.drifts dir output.toList)).isFine = true ↔
      output.AgreesAt disk dir := by
  rw [CommandReport.isFine_ofDrifts_iff, AgreesAt, ← upToDate_iff hall, drifts]
  simp only [List.forall_mem_map]
  refine forall₂_congr fun file _ => ?_
  rw [← not_iff_not, Bool.not_eq_false]
  exact FileDrift.isDrifted_ofTexts_iff

theorem AgreesAt.ofDrifts_eq (h : output.AgreesAt disk dir)
    (hall : disk.HoldsAll dir output.toList) :
    CommandReport.ofDrifts (disk.drifts dir output.toList) = output.upToDate dir := by
  have hdigests := (upToDate_iff hall).2 h
  rw [upToDate, drifts]
  exact congrArg _ (List.map_congr_left fun file hfile =>
    FileDrift.ofTexts_eq_upToDate (hdigests file hfile))

end Output

/-- Checking behind generating succeeds exactly if the schema is still there and files at one place
agree. -/
theorem Command.check_succeeds_iff {report : CommandReport}
    (h : (runGenerate settings options : ExceptT CommandFault (StateM Disk) CommandReport) disk =
      (.ok report, after))
    (hgenerated : (generated (options.generator settings) settings.sources options.input :
      ExceptT CommandFault (StateM Disk) (Output × Ledger)) disk = (.ok (output, ledger), disk))
    (hinput : output.SparesAt after (options.outputDir settings) options.input)
    (hspared : ∀ path, (options.generator settings).tagLedger = some path →
      output.SparesAt after (options.outputDir settings) path) :
    (Exit.ofOutcome ((runCheck settings options : ExceptT CommandFault (StateM Disk) _) after).1,
        ((runCheck settings options : ExceptT CommandFault (StateM Disk) _) after).2) =
        (⟨0, (output.upToDate (options.outputDir settings)).text, ""⟩, after) ↔
      (∀ path, (options.generator settings).tagLedger = some path →
        ¬ after.SamePlace path options.input) ∧
      output.AgreesAt after (options.outputDir settings) := by
  obtain ⟨output, ledger, middle, hfirst, _, hall, hgrows, hsaved⟩ := of_runGenerate h
  rw [hfirst, Prod.mk.injEq, Except.ok.injEq] at hgenerated
  cases hgenerated.1
  by_cases hledger : ∀ path, (options.generator settings).tagLedger = some path →
      ¬ after.SamePlace path options.input
  · have hafter := holdsAll_saveLedger hall hsaved hspared
    obtain ⟨_, _, text, _, _, htext, _, _⟩ := of_generated hfirst
    have hsame := (readText_of_spared htext hgrows hsaved hinput hledger).trans htext.symm
    rw [runCheck_eq (generated_again hfirst hsame hsaved) hafter, Prod.mk.injEq,
      Exit.ofOutcome_ok_eq_iff (output.isFine_upToDate _), Output.isFine_drifts_iff hafter]
    · exact ⟨fun h => ⟨hledger, h.1⟩, fun h => ⟨h.2, rfl⟩⟩
    · exact fun hfine => ((Output.isFine_drifts_iff hafter).1 hfine).ofDrifts_eq hafter
  · constructor
    · intro h
      obtain ⟨path, hpath, hsame⟩ : ∃ path, (options.generator settings).tagLedger = some path ∧
          after.SamePlace path options.input := by
        simpa only [not_forall, not_not, exists_prop] using hledger
      have hfails := generated_of_samePlace settings.sources hpath hsaved hsame
      rw [runCheck, bind_apply, hfails] at h
      have hcode : (1 : UInt32) = 0 := congrArg Exit.code (Prod.mk.inj h).1
      exact absurd hcode (by decide)
    · exact fun h => absurd h.1 hledger

namespace CommandLine

variable {surroundings : Surroundings} {generating checking : List String}
  {file : Option String} {exit : Exit}

/-- Where files were written over others with another digest and there is no ledger, a check does
not find every file unchanged. -/
theorem runs_of_overwritten {paths : List String}
    (hgenerating : Invocation.ofArguments generating = .ok ⟨file, .generate options⟩)
    (hchecking : Invocation.ofArguments checking = .ok ⟨file, .check options⟩)
    (hbefore : settingsOn surroundings file disk = .ok settings)
    (hafter : settingsOn surroundings file after = .ok settings)
    (hnone : (options.generator settings).tagLedger = none)
    (hmade : (Command.generated (options.generator settings) settings.sources options.input :
      ExceptT CommandFault (StateM Disk) (Output × Ledger)) disk = (.ok (output, ledger), disk))
    (hwritten : (output.writeTo (options.outputDir settings) :
      ExceptT FileFault (StateM Disk) (List String)) disk = (.ok paths, after))
    (hinput : output.SparesAt after (options.outputDir settings) options.input)
    (hdiffer : ¬ output.AgreesAt after (options.outputDir settings)) :
    (run surroundings generating : StateM Disk Exit) disk =
        (⟨0, (CommandReport.ofWritten (options.outputDir settings) paths).text, ""⟩, after) ∧
      (run surroundings checking : StateM Disk Exit) after ≠
        (⟨0, (output.upToDate (options.outputDir settings)).text, ""⟩, after) := by
  have hreport := Command.runGenerate_of_none hmade hwritten hnone
  constructor
  · rw [run_of_settings hgenerating hbefore, Command.run, hreport]
    rfl
  · rw [run_of_settings hchecking hafter, Command.run]
    intro hcheck
    have hspared : ∀ path, (options.generator settings).tagLedger = some path →
        output.SparesAt after (options.outputDir settings) path := by
      rw [hnone]
      rintro _ ⟨⟩
    exact hdiffer ((Command.check_succeeds_iff hreport hmade hinput hspared).1 hcheck).2

/-- A run that generates files and succeeds makes them from the schema and the ledger at hand. A run
that checks with the same options and settings then finds every file unchanged, unless the ledger
was saved over the schema or files were written over others with another digest. The latter does not
happen where the packages and the nodes below the module have names. -/
theorem check_after_generate
    (hgenerating : Invocation.ofArguments generating = .ok ⟨file, .generate options⟩)
    (hchecking : Invocation.ofArguments checking = .ok ⟨file, .check options⟩)
    (hrun : (run surroundings generating : StateM Disk Exit) disk = (exit, after))
    (hexit : exit.code = 0)
    (hbefore : settingsOn surroundings file disk = .ok settings)
    (hafter : settingsOn surroundings file after = .ok settings) :
    let config := options.generator settings
    let dir := options.outputDir settings
    ∃ tree output, Command.Makes config settings.sources options.input disk tree output ∧
      exit = ⟨0, (CommandReport.ofWritten dir (output.toList.map (·.pathIn dir))).text, ""⟩ ∧
      (output.SparesAt after dir options.input →
        (∀ path, config.tagLedger = some path → output.SparesAt after dir path) →
        ((run surroundings checking : StateM Disk Exit) after =
            (⟨0, (output.upToDate dir).text, ""⟩, after) ↔
          (∀ path, config.tagLedger = some path → ¬ after.SamePlace path options.input) ∧
            output.AgreesAt after dir)) ∧
      (Package.IsName config.basePackage → Package.IsName config.enumPackageName → tree.Named →
        output.AgreesAt after dir) := by
  intro config dir
  rw [run_of_settings hgenerating hbefore, Prod.mk.injEq] at hrun
  cases houtcome : (Command.runGenerate settings options :
      ExceptT CommandFault (StateM Disk) CommandReport) disk with
  | mk outcome reached =>
      rw [Command.run, houtcome] at hrun
      obtain ⟨rfl, rfl⟩ := hrun
      cases outcome with
      | error fault => exact absurd hexit (by simp [Exit.ofOutcome])
      | ok report =>
          obtain ⟨output, ledger, _, hgenerated, rfl, _⟩ := Command.of_runGenerate houtcome
          obtain ⟨tree, hmakes⟩ := Command.exists_makes hgenerated
          refine ⟨tree, output, hmakes, rfl, ?_, ?_⟩
          · intro hinput hspared
            rw [run_of_settings hchecking hafter, Command.run]
            exact Command.check_succeeds_iff houtcome hgenerated hinput hspared
          · intro hbase henum hnamed file hfile other hother hsame
            obtain ⟨start, _, houtput⟩ := hmakes.files
            have hpackage := hbase.append henum
            rw [Tree.apart_of_generate hbase hpackage hnamed houtput hfile hother hsame]

theorem check_after_generate_tagged_leaf :
    let surroundings : Surroundings := ⟨none, [("PROTOGEN__GENERATOR__TAG_LEDGER", "tags.json")]⟩
    let settings : Settings := { generator := { tagLedger := some "tags.json" } }
    let schema := "[\"m\",\"module\",[],null,[[\"top\",\"container\",[],null," ++
      "[[\"id\",\"leaf\",[],\x7b\"name\":\"string\",\"kind\":\"string\"\x7d]]]]]"
    let disk : Disk := ⟨[(⟨.above 0, ["schema.json"]⟩, .file (.text schema))]⟩
    ∃ exit after tree output,
      (run surroundings ["generate", "-i", "schema.json"] : StateM Disk Exit) disk = (exit, after) ∧
      exit.code = 0 ∧ settingsOn surroundings none disk = .ok settings ∧
      settingsOn surroundings none after = .ok settings ∧
      Command.Makes settings.generator {} "schema.json" disk tree output ∧
      output.toList.map (·.pathIn "proto") = ["proto/openconfig.proto"] ∧
      (run surroundings ["check", "-i", "schema.json"] : StateM Disk Exit) after =
        (⟨0, (output.upToDate "proto").text, ""⟩, after) := by
  intro surroundings settings schema disk
  have hgenerating : Invocation.ofArguments ["generate", "-i", "schema.json"] =
    .ok ⟨none, .generate ⟨"schema.json", none, false⟩⟩ := rfl
  have hchecking : Invocation.ofArguments ["check", "-i", "schema.json"] =
    .ok ⟨none, .check ⟨"schema.json", none, false⟩⟩ := rfl
  have hbefore : settingsOn surroundings none disk = .ok settings :=
    eq_ok_of_toOption (by decide +kernel)
  have hpaths : ((Command.generated settings.generator {} "schema.json" :
      ExceptT CommandFault (StateM Disk) (Output × Ledger)) disk).1.toOption.map
        (fun made => made.1.toList.map (·.pathIn "proto")) = some ["proto/openconfig.proto"] := by
    decide +kernel
  generalize hrun : (run surroundings ["generate", "-i", "schema.json"] : StateM Disk Exit) disk =
    ran
  have hfacts : ran.1.code = 0 ∧ (settingsOn surroundings none ran.2).toOption = some settings ∧
      ¬ ran.2.SamePlace "tags.json" "schema.json" ∧
      ¬ ran.2.SamePlace "proto/openconfig.proto" "schema.json" ∧
      ¬ ran.2.SamePlace "proto/openconfig.proto" "tags.json" := by
    rw [← hrun]
    decide +kernel
  obtain ⟨hexit, hafter, hledger, hinput, hspared⟩ := hfacts
  obtain ⟨tree, output, hmakes, -, hcheck, -⟩ := check_after_generate hgenerating hchecking hrun
    hexit hbefore (eq_ok_of_toOption hafter)
  obtain ⟨ledger, hgenerated⟩ : ∃ ledger, (Command.generated settings.generator {} "schema.json" :
      ExceptT CommandFault (StateM Disk) (Output × Ledger)) disk = (.ok (output, ledger), disk) :=
    hmakes.generated
  have hone : output.toList.map (·.pathIn "proto") = ["proto/openconfig.proto"] := by
    rw [hgenerated] at hpaths
    exact Option.some.inj hpaths
  refine ⟨ran.1, ran.2, tree, output, rfl, hexit, hbefore, eq_ok_of_toOption hafter, hmakes, hone,
    (hcheck ?_ ?_).2 ⟨?_, ?_⟩⟩
  · exact Output.sparesAt_iff.2 (hone ▸ by simpa using hinput)
  · rintro path ⟨⟩
    exact Output.sparesAt_iff.2 (hone ▸ by simpa using hspared)
  · rintro path ⟨⟩
    exact hledger
  · obtain ⟨file, hfile, _⟩ := List.map_eq_singleton_iff.1 hone
    intro one hone other hother _
    rw [hfile, List.mem_singleton] at hone hother
    rw [hone, hother]

/-- Three containers, the outer two without names: the packages of the inner two differ in a dot,
and their files have one place. -/
theorem not_check_after_generate :
    let surroundings : Surroundings := ⟨none, []⟩
    let schema := "[\"m\",\"module\",[],null,[[\"\",\"container\",[],null," ++
      "[[\"\",\"container\",[],null,[[\"c\",\"container\"]]]]]]]"
    let disk : Disk := ⟨[(⟨.above 0, ["schema.json"]⟩, .file (.text schema))]⟩
    let config : Config := {}
    ∃ exit after tree output,
      (run surroundings ["generate", "-i", "schema.json"] : StateM Disk Exit) disk = (exit, after) ∧
      exit.code = 0 ∧ settingsOn surroundings none disk = .ok {} ∧
      settingsOn surroundings none after = .ok {} ∧ config.tagLedger = none ∧
      Package.IsName config.basePackage ∧ Package.IsName config.enumPackageName ∧
      Command.Makes config {} "schema.json" disk tree output ∧
      output.SparesAt after "proto" "schema.json" ∧
      (run surroundings ["check", "-i", "schema.json"] : StateM Disk Exit) after ≠
        (⟨0, (output.upToDate "proto").text, ""⟩, after) := by
  intro surroundings schema disk config
  have hgenerating : Invocation.ofArguments ["generate", "-i", "schema.json"] =
    .ok ⟨none, .generate ⟨"schema.json", none, false⟩⟩ := rfl
  have hchecking : Invocation.ofArguments ["check", "-i", "schema.json"] =
    .ok ⟨none, .check ⟨"schema.json", none, false⟩⟩ := rfl
  have hbefore : settingsOn surroundings none disk = .ok {} := eq_ok_of_toOption (by decide +kernel)
  let outcome := ((Command.generated config {} "schema.json" :
    ExceptT CommandFault (StateM Disk) (Output × Ledger)) disk).1.toOption
  let paths := ["openconfig.proto", "openconfig/.proto", "openconfig//.proto"]
  have hpaths : (outcome.map fun made => made.1.toList.map ProtoFile.path) = some paths := by
    decide +kernel
  have hdigests : ∀ made ∈ outcome, ∃ file ∈ made.1.toList, ∃ other ∈ made.1.toList,
      file.path = "openconfig/.proto" ∧ other.path = "openconfig//.proto" ∧
      Digest.ofText file.content ≠ Digest.ofText other.content := by
    decide +kernel
  -- with their paths written out, the files are not generated again at each step of a path
  let placed (output : Output) : List ProtoFile :=
    List.zipWith (fun path file => { file with path := path }) paths output.toList
  let written (output : Output) : Except FileFault (List String) × Disk :=
    ((placed output).mapM fun file => file.writeTo "proto" : ExceptT FileFault (StateM Disk) _) disk
  have hwritten : ∀ made ∈ outcome, (written made.1).1.toOption.isSome = true ∧
      (settingsOn surroundings none (written made.1).2).toOption = some {} ∧
      (written made.1).2.SamePlace "proto/openconfig/.proto" "proto/openconfig//.proto" ∧
      ∀ path ∈ paths, ¬ (written made.1).2.SamePlace (Path.join "proto" path) "schema.json" := by
    decide +kernel
  obtain ⟨⟨output, ledger⟩, hsome, hpaths⟩ := Option.map_eq_some_iff.1 hpaths
  obtain ⟨file, hfile, other, hother, hpath, hpath', hne⟩ := hdigests _ hsome
  obtain ⟨hok, hafter, hsame, hspared⟩ := hwritten _ hsome
  have hplaced : placed output = output.toList :=
    (congrArg (List.zipWith _ · output.toList) hpaths.symm).trans (ProtoFile.zipWith_path _)
  obtain ⟨places, hok⟩ := exists_eq_ok_of_isSome hok
  have hwrites : (output.writeTo "proto" : ExceptT FileFault (StateM Disk) (List String)) disk =
      (.ok places, (written output).2) := by
    rw [Output.writeTo, ← hplaced]
    exact Prod.ext hok rfl
  have hmade := Command.generated_eq (eq_ok_of_toOption hsome)
  obtain ⟨tree, hmakes⟩ := Command.exists_makes hmade
  have hinput : output.SparesAt (written output).2 "proto" "schema.json" := by
    rintro one hone
    exact hspared _ (hpaths ▸ List.mem_map_of_mem hone)
  have hdiffer : ¬ output.AgreesAt (written output).2 "proto" := by
    refine fun hagrees => hne (hagrees file hfile other hother ?_)
    rw [ProtoFile.pathIn, ProtoFile.pathIn, hpath, hpath']
    exact hsame
  obtain ⟨hrun, hcheck⟩ := runs_of_overwritten hgenerating hchecking hbefore
    (eq_ok_of_toOption hafter) rfl hmade hwrites hinput hdiffer
  exact ⟨_, _, tree, output, hrun, rfl, hbefore, eq_ok_of_toOption hafter, rfl,
    Package.isName_of_allowed (by decide) (List.all_eq_true.1 (by decide)),
    Package.isName_of_allowed (by decide) (List.all_eq_true.1 (by decide)), hmakes, hinput, hcheck⟩

end CommandLine

end YangToProto

import YangToProto.Generation.Output
import YangToProto.Proofs.Collection.Entries

/-!
# What stands in which file

The file of a package is a header followed by the messages of the groups of that package, in the
order of the groups, and in the package of shared enums by the enums. A package has a file exactly
if some group stands in it, or if it is the package of shared enums and there is one
(`GeneratedRecords.find?_output`, `code_body`). A file imports what its messages import, each path
once and never its own (`imports_file`).
-/

namespace YangToProto

namespace GeneratedRecords

def messagesIn (records : GeneratedRecords) (package : String) : List Message :=
  (records.groups.filter fun group => group.package == package).flatMap MessageGroup.messages

def enumsIn (config : Config) (records : GeneratedRecords) (package : String) : List PackageEnum :=
  if package = config.enumPackage then records.enums else []

def code (config : Config) (records : GeneratedRecords) (package : String) : String :=
  String.join ((records.messagesIn package).map Message.render ++
    (records.enumsIn config package).map PackageEnum.render)

def codeOf (bodies : SortedMap String FileBody) (package : String) : String :=
  ((bodies.find? package).getD .empty).code

theorem codeOf_addTo (bodies : SortedMap String FileBody) (package other : String)
    (more : FileBody) :
    codeOf (addTo bodies package more) other =
      codeOf bodies other ++ if other = package then more.code else "" := by
  rw [codeOf, addTo, SortedMap.find?_insert]
  by_cases h : other = package
  · subst h
    rw [if_pos rfl, if_pos rfl]
    rfl
  · rw [if_neg h, if_neg h, String.append_empty]
    rfl

theorem contains_addTo (bodies : SortedMap String FileBody) (package other : String)
    (more : FileBody) :
    (addTo bodies package more).contains other =
      (decide (other = package) || bodies.contains other) :=
  SortedMap.contains_insert bodies package other _

theorem code_body (group : MessageGroup) :
    group.body.code = String.join (group.messages.map Message.render) := by
  have hfold : ∀ (messages : List Message) (body : FileBody),
      (messages.foldl (fun body message => body.add message.render
        (message.imports.filter (· != Package.importPath group.package))) body).code =
        body.code ++ String.join (messages.map Message.render) := by
    intro messages
    induction messages with
    | nil => simp
    | cons message rest ih =>
        intro body
        rw [List.foldl_cons, ih, List.map_cons, String.join_cons, ← String.append_assoc]
        rfl
  rw [MessageGroup.body, hfold]
  exact String.empty_append

theorem codeOf_groups (groups : List MessageGroup) (bodies : SortedMap String FileBody)
    (package : String) :
    codeOf (groups.foldl (fun bodies group => addTo bodies group.package group.body) bodies)
        package =
      codeOf bodies package ++ String.join
        (((groups.filter fun group => group.package == package).flatMap
          MessageGroup.messages).map Message.render) := by
  induction groups generalizing bodies with
  | nil => simp
  | cons group rest ih =>
      rw [List.foldl_cons, ih, codeOf_addTo]
      by_cases h : group.package = package
      · rw [if_pos h.symm, List.filter_cons_of_pos (by simp [h]), List.flatMap_cons,
          List.map_append, String.join_append, code_body, String.append_assoc]
      · rw [if_neg (Ne.symm h), List.filter_cons_of_neg (by simp [h]), String.append_empty]

theorem contains_groups (groups : List MessageGroup) (bodies : SortedMap String FileBody)
    (package : String) :
    (groups.foldl (fun bodies group => addTo bodies group.package group.body) bodies).contains
        package =
      (groups.any (fun group => group.package == package) || bodies.contains package) := by
  induction groups generalizing bodies with
  | nil => rfl
  | cons group rest ih =>
      rw [List.foldl_cons, ih, contains_addTo, List.any_cons]
      by_cases h : group.package = package
      · simp [h]
      · simp [beq_eq_false_iff_ne.2 h, Ne.symm h]

variable {config : Config} {sources : Sources}

theorem codeOf_enums (enums : List PackageEnum) (bodies : SortedMap String FileBody)
    (package : String) :
    codeOf (enums.foldl (fun bodies enum => addTo bodies config.enumPackage ⟨enum.render, []⟩)
        bodies) package =
      codeOf bodies package ++ String.join
        ((if package = config.enumPackage then enums else []).map PackageEnum.render) := by
  induction enums generalizing bodies with
  | nil => simp
  | cons enum rest ih =>
      rw [List.foldl_cons, ih, codeOf_addTo]
      by_cases h : package = config.enumPackage
      · rw [if_pos h, if_pos h, if_pos h, List.map_cons, String.join_cons, String.append_assoc]
      · rw [if_neg h, if_neg h, if_neg h, String.append_empty]

theorem contains_enums (enums : List PackageEnum) (bodies : SortedMap String FileBody)
    (package : String) :
    (enums.foldl (fun bodies enum => addTo bodies config.enumPackage ⟨enum.render, []⟩)
        bodies).contains package =
      ((!enums.isEmpty && package == config.enumPackage) || bodies.contains package) := by
  induction enums generalizing bodies with
  | nil => rfl
  | cons enum rest ih =>
      rw [List.foldl_cons, ih, contains_addTo]
      by_cases h : package = config.enumPackage
      · simp [h]
      · simp [beq_eq_false_iff_ne.2 h, h]

theorem codeOf_bodies (records : GeneratedRecords) (package : String) :
    codeOf (records.bodies config) package = records.code config package := by
  rw [bodies, codeOf_enums, codeOf_groups, code, String.join_append]
  rfl

theorem contains_bodies (records : GeneratedRecords) (package : String) :
    (records.bodies config).contains package =
      ((!records.enums.isEmpty && package == config.enumPackage) ||
        records.groups.any fun group => group.package == package) := by
  rw [bodies, contains_enums, contains_groups]
  simp [SortedMap.contains]

/-- The file of a package is made from the body of the package. -/
theorem find?_output (records : GeneratedRecords) (package : String) :
    (records.output config sources).find? package =
      ((records.bodies config).find? package).map (file config sources package) := by
  have hfold := SortedMap.find?_foldl_insert (file config sources)
    (records.bodies config).entries (records.bodies config).increasing SortedMap.empty package
  rw [SortedMap.find?_empty, Option.or_none] at hfold
  exact hfold

end GeneratedRecords

/-- Each file holds the definitions of its package behind a header, and what is defined stands in
a file. -/
def Output.Holds (config : Config) (sources : Sources) (records : GeneratedRecords)
    (output : Output) : Prop :=
  (∀ package file, output.find? package = some file →
    file.content = (GeneratedRecords.header config sources package file.imports).render ++
      records.code config package) ∧
  (∀ group ∈ records.groups, ∃ file, output.find? group.package = some file) ∧
  (records.enums ≠ [] → ∃ file, output.find? config.enumPackage = some file)

theorem GeneratedRecords.holds_output (config : Config) (sources : Sources)
    (records : GeneratedRecords) :
    (records.output config sources).Holds config sources records := by
  have hfile : ∀ package, (records.bodies config).contains package = true →
      ∃ file, (records.output config sources).find? package = some file := by
    intro package hcontains
    obtain ⟨body, hbody⟩ := (SortedMap.contains_iff _ _).1 hcontains
    rw [find?_output, hbody]
    exact ⟨_, rfl⟩
  refine ⟨fun package found hfound => ?_, fun group hgroup => ?_, fun hne => ?_⟩
  · rw [find?_output] at hfound
    obtain ⟨body, hbody, rfl⟩ := Option.map_eq_some_iff.1 hfound
    have hcode : codeOf (records.bodies config) package = records.code config package :=
      records.codeOf_bodies package
    rw [codeOf, hbody] at hcode
    rw [← hcode]
    rfl
  · refine hfile group.package ?_
    rw [contains_bodies, Bool.or_eq_true]
    exact Or.inr (List.any_eq_true.2 ⟨group, hgroup, beq_self_eq_true _⟩)
  · refine hfile config.enumPackage ?_
    rw [contains_bodies, Bool.or_eq_true]
    refine Or.inl ?_
    rw [beq_self_eq_true, Bool.and_true, Bool.not_eq_true', List.isEmpty_eq_false_iff]
    exact hne

/-!
## Imports
-/

namespace FileBody

theorem mem_addImports_iff {imports more : List String} {path : String} :
    path ∈ addImports imports more ↔ path ∈ imports ∨ path ∈ more := by
  rw [addImports]
  induction more generalizing imports with
  | nil => simp
  | cons first rest ih =>
      rw [List.foldl_cons, ih, List.mem_cons]
      split
      · rename_i hcontains
        have hmem : first ∈ imports := by simpa using hcontains
        constructor
        · exact Or.imp_right Or.inr
        · rintro (h | rfl | h)
          · exact Or.inl h
          · exact Or.inl hmem
          · exact Or.inr h
      · rw [List.mem_append, List.mem_singleton, or_assoc]

theorem nodup_addImports {imports : List String} (h : imports.Nodup) (more : List String) :
    (addImports imports more).Nodup := by
  rw [addImports]
  induction more generalizing imports with
  | nil => exact h
  | cons first rest ih =>
      rw [List.foldl_cons]
      split
      · exact ih h
      · rename_i hcontains
        have hfresh : first ∉ imports := by simpa using hcontains
        refine ih (List.nodup_append.2 ⟨h, List.nodup_cons.2 ⟨by simp, List.nodup_nil⟩, ?_⟩)
        rintro path hpath other hother rfl
        exact hfresh (List.mem_singleton.1 hother ▸ hpath)

end FileBody

namespace GeneratedRecords

variable {config : Config} {sources : Sources} {package : String}

def importsOf (bodies : SortedMap String FileBody) (package : String) : List String :=
  ((bodies.find? package).getD .empty).imports

theorem importsOf_addTo (bodies : SortedMap String FileBody) (package other : String)
    (more : FileBody) :
    importsOf (addTo bodies package more) other =
      if other = package then FileBody.addImports (importsOf bodies other) more.imports
      else importsOf bodies other := by
  rw [importsOf, addTo, SortedMap.find?_insert]
  by_cases h : other = package
  · subst h
    rw [if_pos rfl, if_pos rfl]
    rfl
  · rw [if_neg h, if_neg h]
    rfl

/-- A group imports what its messages import, except for its own package. -/
theorem mem_imports_body {group : MessageGroup} {path : String} :
    path ∈ group.body.imports ↔
      path ≠ Package.importPath group.package ∧ ∃ message ∈ group.messages,
        path ∈ message.imports := by
  have hfold : ∀ (messages : List Message) (body : FileBody),
      path ∈ (messages.foldl (fun body message => body.add message.render
        (message.imports.filter (· != Package.importPath group.package))) body).imports ↔
        path ∈ body.imports ∨ (path ≠ Package.importPath group.package ∧
          ∃ message ∈ messages, path ∈ message.imports) := by
    intro messages
    induction messages with
    | nil => simp
    | cons message rest ih =>
        intro body
        rw [List.foldl_cons, ih, FileBody.add, FileBody.mem_addImports_iff, List.mem_filter,
          bne_iff_ne, or_assoc, and_comm, ← and_or_left]
        simp only [List.mem_cons, exists_eq_or_imp]
  rw [MessageGroup.body, hfold]
  simp [FileBody.empty]

theorem mem_importsOf_groups (groups : List MessageGroup) (bodies : SortedMap String FileBody)
    {path : String} :
    path ∈ importsOf (groups.foldl (fun bodies group => addTo bodies group.package group.body)
        bodies) package ↔
      path ∈ importsOf bodies package ∨ (path ≠ Package.importPath package ∧
        ∃ message ∈ (groups.filter fun group => group.package == package).flatMap
          MessageGroup.messages, path ∈ message.imports) := by
  induction groups generalizing bodies with
  | nil => simp
  | cons group rest ih =>
      rw [List.foldl_cons, ih, importsOf_addTo]
      by_cases h : group.package = package
      · rw [if_pos h.symm, FileBody.mem_addImports_iff, mem_imports_body, h,
          List.filter_cons_of_pos (by simp [h]), List.flatMap_cons, or_assoc, ← and_or_left]
        simp only [List.mem_append, or_and_right, exists_or]
      · rw [if_neg (Ne.symm h), List.filter_cons_of_neg (by simp [h])]

theorem nodup_importsOf_addTo {bodies : SortedMap String FileBody} {other : String}
    (h : (importsOf bodies package).Nodup) (more : FileBody) :
    (importsOf (addTo bodies other more) package).Nodup := by
  rw [importsOf_addTo]
  split
  · exact FileBody.nodup_addImports h _
  · exact h

theorem importsOf_enums (enums : List PackageEnum) (bodies : SortedMap String FileBody) :
    importsOf (enums.foldl (fun bodies enum => addTo bodies config.enumPackage ⟨enum.render, []⟩)
        bodies) package = importsOf bodies package := by
  induction enums generalizing bodies with
  | nil => rfl
  | cons enum rest ih =>
      rw [List.foldl_cons, ih, importsOf_addTo]
      split
      · rfl
      · rfl

theorem nodup_importsOf_groups (groups : List MessageGroup) {bodies : SortedMap String FileBody}
    (h : (importsOf bodies package).Nodup) :
    (importsOf (groups.foldl (fun bodies group => addTo bodies group.package group.body)
      bodies) package).Nodup := by
  induction groups generalizing bodies with
  | nil => exact h
  | cons group rest ih => exact ih (nodup_importsOf_addTo h group.body)

/-- A file imports what the messages of its package import, each path once and never itself. -/
theorem imports_file {records : GeneratedRecords} {file : ProtoFile}
    (h : (records.output config sources).find? package = some file) :
    file.imports.Nodup ∧ ∀ path, path ∈ file.imports ↔ path ≠ Package.importPath package ∧
      ∃ message ∈ records.messagesIn package, path ∈ message.imports := by
  rw [find?_output] at h
  obtain ⟨body, hbody, rfl⟩ := Option.map_eq_some_iff.1 h
  have hbodies : importsOf (records.bodies config) package = body.imports := by
    rw [importsOf, hbody]
    rfl
  have hgroups := hbodies.symm.trans (importsOf_enums records.enums _)
  have hempty : (importsOf SortedMap.empty package).Nodup := List.nodup_nil
  constructor
  · refine List.Pairwise.filter _ ?_
    rw [hgroups]
    exact nodup_importsOf_groups records.groups hempty
  · intro path
    change path ∈ body.imports.filter _ ↔ _
    rw [List.mem_filter, bne_iff_ne, hgroups, mem_importsOf_groups, messagesIn]
    constructor
    · rintro ⟨hnone | hpath, _⟩
      · cases hnone
      · exact hpath
    · exact fun hpath => ⟨Or.inr hpath, hpath.1⟩

end GeneratedRecords

end YangToProto

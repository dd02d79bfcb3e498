import Mathlib.Logic.Relation
import YangToProto.Proofs.Generation.Grouping
import YangToProto.Proofs.Generation.NameOrigins

/-!
# Names that are packages too

A definition `name` in the package `outer` has the full name `outer.name`, and so has the package of
what is below a container `name`. Such names meet exactly where a package goes on from `outer` by a
part that is the name of a definition there (`GeneratedRecords.Branch`). Names of definitions never
start with a lower-case letter, so they keep apart from packages as long as all parts do
(`Tree.names_apart_from_packages_iff`).
-/

namespace YangToProto

open Identifier

variable {config : Config} {tree : Tree} {records : GeneratedRecords} {start final : Registry}
  {sources : Sources} {site holder home : Site} {compress : Bool}
  {base package other name part : String} {front back parts : List String}

namespace Package

/-- A package has the name, or a dotted prefix of it has. -/
def Covers (name package : String) : Prop :=
  package = name ∨ ∃ rest, package = name ++ "." ++ rest

theorem dotted_append (hne : front ≠ []) (parts : List String) :
    dotted (front ++ parts) = dotted (dotted front :: parts) := by
  cases parts with
  | nil => simp [dotted]
  | cons part rest =>
      rw [dotted, String.intercalate_append_of_ne_nil hne (List.cons_ne_nil _ _), dotted,
        String.intercalate_cons_cons]
      rfl

theorem covers_dotted (base : String) (front : List String) (part : String) (back : List String) :
    Covers (dotted [dotted (base :: front), part]) (dotted (base :: (front ++ part :: back))) := by
  have hsplit : dotted (base :: (front ++ part :: back)) =
      dotted (dotted [dotted (base :: front), part] :: back) := by
    rw [← dotted_append (List.cons_ne_nil _ _), ← List.cons_append,
      dotted_append (List.cons_ne_nil _ _)]
    rfl
  rw [hsplit]
  cases back with
  | nil => exact Or.inl String.intercalate_singleton
  | cons next more => exact Or.inr ⟨_, String.intercalate_cons_cons⟩

/-- The full name of a definition covers a package exactly if the package goes on with its name. -/
theorem eq_append_of_covers (hparts : ∀ part ∈ parts, '.' ∉ part.toList)
    (hfront : ∀ part ∈ front, '.' ∉ part.toList) (hname : '.' ∉ name.toList)
    (h : Covers (dotted [dotted (base :: front), name]) (dotted (base :: parts))) :
    ∃ back, parts = front ++ name :: back := by
  have hnames : ∀ part ∈ front ++ [name], '.' ∉ part.toList := by
    intro part hpart
    rcases List.mem_append.1 hpart with hpart | hpart
    · exact hfront part hpart
    · exact List.mem_singleton.1 hpart ▸ hname
  have hfull : dotted [dotted (base :: front), name] = dotted (base :: (front ++ [name])) :=
    (dotted_append (List.cons_ne_nil base front) [name]).symm
  have hinjective : ∀ {texts others : List String},
      texts.map String.toList = others.map String.toList → texts = others :=
    fun htexts => (List.map_inj_right fun _ _ => String.toList_inj.1).1 htexts
  rw [hfull] at h
  rcases h with h | ⟨rest, h⟩
  · have hpieces := congrArg (fun text => Segments.split '.' text.toList) h
    rw [split_dotted base hparts, split_dotted base hnames, List.append_cancel_left_eq] at hpieces
    exact ⟨[], hinjective hpieces⟩
  · have hpieces := congrArg (fun text => Segments.split '.' text.toList) h
    have htext : (dotted (base :: (front ++ [name])) ++ "." ++ rest).toList =
        (dotted (base :: (front ++ [name]))).toList ++ '.' :: rest.toList := by
      rw [String.toList_append, String.toList_append, List.append_assoc]
      rfl
    rw [htext, Segments.split_append_cons, split_dotted base hparts, split_dotted base hnames,
      List.append_assoc, List.append_cancel_left_eq] at hpieces
    refine ⟨Segments.ofString '.' rest, hinjective (hpieces.trans ?_)⟩
    simp [Segments.ofString, Function.comp_def]

end Package

def Config.enumParts (config : Config) : List String :=
  Segments.ofString '.' config.enumPackageName

theorem Config.dot_notMem_enumParts (config : Config) :
    ∀ part ∈ config.enumParts, '.' ∉ part.toList := by
  intro part hpart
  obtain ⟨piece, hpiece, rfl⟩ := List.mem_map.1 hpart
  rw [String.toList_ofList]
  exact Segments.sep_notMem_split piece hpiece

theorem Config.enumPackage_eq_dotted (config : Config) :
    config.enumPackage = Package.dotted (config.basePackage :: config.enumParts) := by
  have hpieces := Package.split_dotted config.basePackage config.dot_notMem_enumParts
  have hnames : config.enumParts.map String.toList =
      Segments.split '.' config.enumPackageName.toList := by
    simp [enumParts, Segments.ofString, Function.comp_def]
  rw [hnames, ← Segments.split_append_cons, ← config.toList_enumPackage] at hpieces
  rw [← String.toList_inj, ← Segments.join_split '.' config.enumPackage.toList, ← hpieces,
    Segments.join_split]

/-!
## Ancestors with messages
-/

namespace Site

/-- The second node has a message and holds the first one, or a message that does. -/
def Above (compress : Bool) : Site → Site → Prop :=
  Relation.TransGen fun site holder => site.holder? compress = some holder

theorem Above.exists_packageParts (h : Above compress site holder) :
    ∃ more, site.packageParts compress =
      holder.packageParts compress ++ sanitize holder.name :: more := by
  induction h using Relation.TransGen.head_induction_on with
  | single hholder => exact ⟨[], packageParts_of_holder? hholder⟩
  | @head site middle hholder _ ih =>
      obtain ⟨more, hmore⟩ := ih
      refine ⟨more ++ [sanitize middle.name], ?_⟩
      rw [packageParts_of_holder? hholder, hmore, List.append_assoc, List.cons_append]

/-- Each part of a wanted package belongs to an ancestor with a message. -/
theorem exists_above_of_packageParts (h : site.packageParts compress = front ++ part :: back) :
    ∃ holder, Above compress site holder ∧ front = holder.packageParts compress ∧
      part = sanitize holder.name := by
  induction back using List.reverseRecOn generalizing site with
  | nil =>
      cases hholder : site.holder? compress with
      | none =>
          rw [packageParts_of_none hholder] at h
          exact absurd h.symm (by simp)
      | some holder =>
          rw [packageParts_of_holder? hholder] at h
          obtain ⟨hfront, hpart⟩ := List.append_inj' h rfl
          exact ⟨holder, .single hholder, hfront.symm, (List.cons.inj hpart).1.symm⟩
  | append_singleton more last ih =>
      cases hholder : site.holder? compress with
      | none =>
          rw [packageParts_of_none hholder] at h
          exact absurd h.symm (by simp)
      | some middle =>
          rw [packageParts_of_holder? hholder, ← List.cons_append, ← List.append_assoc] at h
          obtain ⟨hfront, _⟩ := List.append_inj' h rfl
          obtain ⟨holder, habove, hparts⟩ := ih hfront
          exact ⟨holder, .head hholder habove, hparts⟩

end Site

/-!
## Packages that go on
-/

/-- Below a package a package of the output goes on with a part. The parts of the packages that hold
a message are those of its ancestors with messages; only the last one is as it was given out. -/
inductive GeneratedRecords.Branch (config : Config) (tree : Tree) (records : GeneratedRecords) :
    String → String → Prop where
  | above {home holder node : Site} (hhome : Owner.directory home ∈ tree.owners config)
      (hholder : home.holder? config.compressPaths = some holder)
      (habove : Site.Above config.compressPaths holder node) :
      Branch config tree records
        (node.packageCandidate config.compressPaths config.basePackage) (sanitize node.name)
  | last {home holder : Site} {package part : String} {message : Message}
      (hmakes : records.Makes config tree (.directory home) package message)
      (hholder : home.holder? config.compressPaths = some holder)
      (hpackage : package = Package.dotted
        [holder.packageCandidate config.compressPaths config.basePackage, part]) :
      Branch config tree records
        (holder.packageCandidate config.compressPaths config.basePackage) part
  | enums {front back : List String} {part : String} (henums : records.enums ≠ [])
      (hparts : config.enumParts = front ++ part :: back) :
      Branch config tree records (Package.dotted (config.basePackage :: front)) part

/-- No definition has the full name of a package with a file, or a dotted prefix of it. -/
def Output.NamesApart (config : Config) (records : GeneratedRecords) (output : Output) : Prop :=
  ∀ package, ∀ name ∈ records.namesIn config package,
    ∀ other file, output.find? other = some file →
      ¬ Package.Covers (Package.dotted [package, name]) other

namespace GeneratedRecords

/-- A package with a file is that of a directory's message, or that of shared enums. -/
theorem Traced.package_cases (h : records.Traced config tree start final) {file : ProtoFile}
    (hfile : (records.output config sources).find? package = some file) :
    (∃ home message parts, records.Makes config tree (.directory home) package message ∧
      Owner.directory home ∈ tree.owners config ∧ home.PartsOf config.compressPaths parts ∧
      package = Package.dotted (config.basePackage :: parts)) ∨
    (package = config.enumPackage ∧ records.enums ≠ []) := by
  refine (exists_file_iff.1 ⟨file, hfile⟩).imp_left ?_
  rintro ⟨group, hgroup, rfl⟩
  obtain ⟨directory, hd, hgives⟩ := exists_mem_left_of_forall₂ h.named.gives hgroup
  have hown : Owner.directory directory.site ∈ (tree.directories config).owners config := by
    rw [Tree.owners_directories h.root h.slashFree]
    exact Tree.mem_owners_iff.2 ⟨directory, hd, Directory.mem_owners_iff.2 (Or.inr rfl)⟩
  obtain ⟨package, message, hmakes⟩ := h.named.exists_makes hown
  obtain ⟨_, hplace⟩ := h.place?_of_makes hmakes
  have hfound := (Registry.place?_eq_some_iff.1 (h.kept.place? hplace)).1
  have hsame : package = group.package := by
    obtain ⟨_, _, _, hpackage⟩ := hgives
    exact Option.some.inj (hfound.symm.trans hpackage)
  subst hsame
  obtain ⟨home, parts, hhome, hmem, hparts, hpackage⟩ := h.exists_parts hmakes
  cases hhome
  exact ⟨_, message, parts, hmakes, hmem, hparts, hpackage⟩

/-- A package in which something is defined consists of parts below the base package. -/
theorem Traced.exists_parts_of_namesIn (h : records.Traced config tree start final)
    (hname : name ∈ records.namesIn config package) :
    ∃ parts, (∀ part ∈ parts, '.' ∉ part.toList) ∧
      package = Package.dotted (config.basePackage :: parts) := by
  rcases List.mem_append.1 hname with hname | hname
  · obtain ⟨message, hmem, rfl⟩ := List.mem_map.1 hname
    obtain ⟨owner, hmakes⟩ := h.named.exists_owner hmem
    obtain ⟨home, parts, _, _, hparts, hpackage⟩ := h.exists_parts hmakes
    exact ⟨parts, hparts.dot_notMem, hpackage⟩
  · obtain ⟨enum, henum, rfl⟩ := List.mem_map.1 hname
    rw [enumsIn] at henum
    split at henum
    · rename_i hpackage
      exact ⟨config.enumParts, config.dot_notMem_enumParts,
        hpackage.trans config.enumPackage_eq_dotted⟩
    · exact absurd henum List.not_mem_nil

/-- Names of definitions hold no dots. -/
theorem Traced.dot_notMem_namesIn (h : records.Traced config tree start final) :
    ∀ name ∈ records.namesIn config package, '.' ∉ name.toList := by
  have hallowed : ∀ name ∈ records.namesIn config package, ∀ c ∈ name.toList,
      isAllowed c = true := by
    refine h.forall_namesIn (fun name c hc => isAllowed_of_mem_sanitize hc)
      (fun hcandidate hmade => isAllowed_of_madeFrom hcandidate hmade) fun hmessage c hc => ?_
    rw [Registry.keyCandidate_eq, String.toList_append] at hc
    exact (List.mem_append.1 hc).elim (hmessage c) (Registry.isAllowed_of_mem_key c)
  exact fun name hname hdot => absurd (hallowed name hname '.' hdot) (by decide)

/-- Nor do they start with lower-case letters. -/
theorem Traced.startsLow_namesIn (h : records.Traced config tree start final) :
    ∀ name ∈ records.namesIn config package, startsLow name = false :=
  h.forall_namesIn startsLow_pascalCase (fun hlow hmade => startsLow_of_madeFrom hmade hlow)
    fun hlow => startsLow_append hlow (by decide)

/-!
## Clashes
-/

/-- Where a package goes on with the name of a definition, the full name of that definition covers a
package with a file. -/
theorem Traced.exists_covers_of_branch (h : records.Traced config tree start final)
    {outer : String} (hbranch : records.Branch config tree outer part) (sources : Sources) :
    ∃ other file, (records.output config sources).find? other = some file ∧
      Package.Covers (Package.dotted [outer, part]) other := by
  cases hbranch with
  | @above home holder node hhome hholder habove =>
      rw [← Tree.owners_directories h.root h.slashFree] at hhome
      obtain ⟨package, message, hmakes⟩ := h.named.exists_makes hhome
      obtain ⟨file, hfile⟩ := exists_file_of_mem config sources hmakes.mem_messagesIn
      obtain ⟨home, parts, hsame, _, hparts, rfl⟩ := h.exists_parts hmakes
      cases hsame
      refine ⟨_, file, hfile, ?_⟩
      cases hparts with
      | base hnone =>
          rw [hholder] at hnone
          cases hnone
      | below hsame hpart =>
          obtain rfl := Option.some.inj (hholder.symm.trans hsame)
          obtain ⟨more, hmore⟩ := habove.exists_packageParts
          rw [hmore, List.append_assoc, List.cons_append]
          exact Package.covers_dotted _ _ _ _
  | @last home holder package part message hmakes hholder hpackage =>
      obtain ⟨file, hfile⟩ := exists_file_of_mem config sources hmakes.mem_messagesIn
      exact ⟨package, file, hfile, Or.inl hpackage⟩
  | enums henums hparts =>
      obtain ⟨file, hfile⟩ := exists_file_iff.2 (Or.inr ⟨rfl, henums⟩)
      refine ⟨config.enumPackage, file, hfile, ?_⟩
      rw [config.enumPackage_eq_dotted, hparts]
      exact Package.covers_dotted _ _ _ _

/-- Where the full name of a definition covers a package with a file, that package goes on with the
name. -/
theorem Traced.branch_of_covers (h : records.Traced config tree start final)
    (hname : name ∈ records.namesIn config package) {file : ProtoFile}
    (hfile : (records.output config sources).find? other = some file)
    (hcovers : Package.Covers (Package.dotted [package, name]) other) :
    records.Branch config tree package name := by
  have hdot := h.dot_notMem_namesIn name hname
  obtain ⟨front, hfront, rfl⟩ := h.exists_parts_of_namesIn hname
  rcases h.package_cases hfile with
    ⟨home, message, parts, hmakes, hhome, hparts, rfl⟩ | ⟨rfl, henums⟩
  · obtain ⟨back, hback⟩ := Package.eq_append_of_covers hparts.dot_notMem hfront hdot hcovers
    cases hparts with
    | base hnone => exact absurd hback (by simp)
    | @below holder last hholder hlast =>
        rcases List.eq_nil_or_concat back with rfl | ⟨more, x, rfl⟩
        · obtain ⟨rfl, hsame⟩ := List.append_inj' hback rfl
          obtain rfl := (List.cons.inj hsame).1
          exact .last hmakes hholder (Package.dotted_append (List.cons_ne_nil _ _) _)
        · rw [List.concat_eq_append, ← List.cons_append, ← List.append_assoc] at hback
          obtain ⟨hkept, _⟩ := List.append_inj' hback rfl
          obtain ⟨node, habove, rfl, rfl⟩ := Site.exists_above_of_packageParts hkept
          exact .above hhome hholder habove
  · rw [config.enumPackage_eq_dotted] at hcovers
    obtain ⟨back, hback⟩ :=
      Package.eq_append_of_covers config.dot_notMem_enumParts hfront hdot hcovers
    exact .enums henums hback

/-- Names and packages keep apart exactly if no package goes on with the name of a definition. Parts
that start with lower-case letters are never such names. -/
theorem Traced.namesApart_iff (h : records.Traced config tree start final) (sources : Sources) :
    (records.output config sources).NamesApart config records ↔
      ∀ outer part, records.Branch config tree outer part → startsLow part = false →
        part ∉ records.namesIn config outer := by
  constructor
  · intro hapart outer part hbranch _ hname
    obtain ⟨other, file, hfile, hcovers⟩ := h.exists_covers_of_branch hbranch sources
    exact hapart outer part hname other file hfile hcovers
  · intro hbranch package name hname other file hfile hcovers
    exact hbranch package name (h.branch_of_covers hname hfile hcovers)
      (h.startsLow_namesIn name hname) hname

/-- Packages go on with parts that start with lower-case letters if the ancestors of messages do,
and the parts of the package of shared enums. -/
theorem Traced.startsLow_of_branch (h : records.Traced config tree start final)
    (hnodes : ∀ home node, Owner.directory home ∈ tree.owners config →
      Site.Above config.compressPaths home node → startsLow node.name = true)
    (henums : records.enums ≠ [] → ∀ part ∈ config.enumParts, startsLow part = true)
    {outer : String} (hbranch : records.Branch config tree outer part) :
    startsLow part = true := by
  cases hbranch with
  | @above home holder node hhome hholder habove =>
      exact startsLow_sanitize (hnodes home node hhome (.head hholder habove))
  | @last home holder package part message hmakes hholder hpackage =>
      obtain ⟨home, parts, hsame, hhome, hparts, rfl⟩ := h.exists_parts hmakes
      cases hsame
      cases hparts with
      | base hnone =>
          rw [hholder] at hnone
          cases hnone
      | @below holder last hsame hlast =>
          obtain rfl := Option.some.inj (hholder.symm.trans hsame)
          -- the package has the part at its end that was given out
          have htext : Package.dotted [holder.packageCandidate config.compressPaths
                config.basePackage, last] =
              Package.dotted [holder.packageCandidate config.compressPaths
                config.basePackage, part] :=
            (Package.dotted_append (List.cons_ne_nil _ _) _).symm.trans hpackage
          rw [Package.dotted, Package.dotted, String.intercalate_cons_cons,
            String.intercalate_cons_cons, String.append_right_inj, String.intercalate_singleton,
            String.intercalate_singleton] at htext
          subst htext
          exact hlast.startsLow (startsLow_sanitize (hnodes home holder hhome (.single hholder)))
  | enums hne hparts =>
      exact henums hne _ (hparts ▸ List.mem_append_right _ List.mem_cons_self)

end GeneratedRecords

/-- Where no name holds a slash, a name is both that of a definition and that of a package exactly
if some package goes on with the name of a definition, which does not start with a lower-case
letter. So it does not happen if the ancestors of all messages and the parts of the package of
shared enums start with lower-case letters. -/
theorem Tree.names_apart_from_packages_iff {declared : Node} {tree : Tree}
    (htree : Tree.ofNode declared = .ok tree) (hslash : tree.SlashFree) {config : Config}
    {sources : Sources} {ledger : Ledger} {output : Output}
    (h : (tree.generate config sources ledger).1 = .ok output) :
    ∃ records, (tree.generateRecords config ledger).1 = .ok records ∧
      output = records.output config sources ∧
      (output.NamesApart config records ↔
        ∀ outer part, records.Branch config tree outer part → startsLow part = false →
          part ∉ records.namesIn config outer) ∧
      ((∀ home node, Owner.directory home ∈ tree.owners config →
          Site.Above config.compressPaths home node → startsLow node.name = true) →
        (records.enums ≠ [] → ∀ part ∈ config.enumParts, startsLow part = true) →
          output.NamesApart config records) := by
  obtain ⟨records, start, final, hrecords, rfl, htraced⟩ :=
    exists_traced_of_generate (distinct_root htree) hslash h
  refine ⟨records, hrecords, rfl, htraced.namesApart_iff sources, fun hnodes henums => ?_⟩
  refine (htraced.namesApart_iff sources).2 fun outer part hbranch hlow => ?_
  rw [htraced.startsLow_of_branch hnodes henums hbranch] at hlow
  cases hlow

theorem Tree.names_apart_from_packages_iff_two_levels :
    let declared := Node.module "m" [Node.container "top"
      [Node.container "inner" [Node.leaf "x" LeafType.string]]]
    let tree := Tree.copyOf declared
    Tree.ofNode declared = .ok tree ∧ tree.SlashFree ∧
      ∃ output, (tree.generate {} {} ∅).1 = .ok output ∧
      ∃ records, (tree.generateRecords {} ∅).1 = .ok records ∧ output = records.output {} {} ∧
        (output.NamesApart {} records ↔
          ∀ outer part, records.Branch {} tree outer part → startsLow part = false →
            part ∉ records.namesIn {} outer) ∧
        ((∀ home node, Owner.directory home ∈ tree.owners {} →
            Site.Above false home node → startsLow node.name = true) →
          (records.enums ≠ [] → ∀ part ∈ ({} : Config).enumParts, startsLow part = true) →
            output.NamesApart {} records) := by
  intro declared tree
  have htree : Tree.ofNode declared = .ok tree :=
    Tree.ofNode_eq rfl (by decide +kernel)
  have hslash : tree.SlashFree := Tree.slashFree_of_sites (by decide +kernel)
  have hsome : (tree.generate {} {} ∅).1.toOption.isSome = true := by decide +kernel
  obtain ⟨output, hrun⟩ := exists_eq_ok_of_isSome hsome
  exact ⟨htree, hslash, output, hrun, Tree.names_apart_from_packages_iff htree hslash hrun⟩

/-- The message of a container `Top` has the name of the package of what is below the container. -/
theorem Tree.not_names_apart_from_packages :
    let declared := Node.module "m" [Node.container "Top"
      [Node.container "x" [Node.leaf "y" LeafType.string]]]
    let tree := Tree.copyOf declared
    Tree.ofNode declared = .ok tree ∧ tree.WellNamed ∧
      ∃ output, (tree.generate {} {} ∅).1 = .ok output ∧
      ∃ records, (tree.generateRecords {} ∅).1 = .ok records ∧ output = records.output {} {} ∧
        ¬ output.NamesApart {} records := by
  intro declared tree
  have htree : Tree.ofNode declared = .ok tree :=
    Tree.ofNode_eq rfl (by decide +kernel)
  have hnames : tree.WellNamed := by decide +kernel
  have hsome : (tree.generate {} {} ∅).1.toOption.isSome = true := by decide +kernel
  obtain ⟨output, hrun⟩ := exists_eq_ok_of_isSome hsome
  obtain ⟨records, hrecords, rfl⟩ := Tree.exists_records_of_generate hrun
  have hrecords := congrArg Prod.fst hrecords
  refine ⟨htree, hnames, _, hrun, records, hrecords, rfl, fun hapart => ?_⟩
  have hboth : (tree.generateRecords {} ∅).1.toOption.map (fun records =>
      decide ("Top" ∈ records.namesIn {} "openconfig") &&
        ((records.output {} {}).find? "openconfig.Top").isSome) = some true := by decide +kernel
  rw [hrecords] at hboth
  obtain ⟨hname, hfile⟩ := Bool.and_eq_true_iff.1 (Option.some.inj hboth)
  obtain ⟨file, hfile⟩ := Option.isSome_iff_exists.1 hfile
  exact hapart _ _ (of_decide_eq_true hname) _ file hfile (Or.inl rfl)

end YangToProto

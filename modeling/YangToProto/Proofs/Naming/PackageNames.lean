import YangToProto.Generation.Config
import YangToProto.Proofs.Naming.Memory

/-!
# Packages and their import paths

An import path has slashes where the package has dots, so among packages without slashes it tells
the package (`Package.importPath_injective`). A registry gives out no other packages if the base
package has no slash (`Registry.SlashFree`): what follows the base are identifiers.
-/

namespace YangToProto

namespace Identifier

theorem slash_notMem_sanitize (name : String) : '/' ∉ (sanitize name).toList := by
  rw [sanitize, String.toList_map, List.mem_map]
  rintro ⟨c, _, hc⟩
  split at hc
  · rename_i hallowed
    rw [hc] at hallowed
    exact absurd hallowed (by decide)
  · exact absurd hc (by decide)

theorem slash_notMem_numbered {name : String} (h : '/' ∉ name.toList) (n : Nat) :
    '/' ∉ (numbered name n).toList := by
  have hdigits : '/' ∉ Nat.toDigits 10 n := fun hmem =>
    absurd (Nat.isDigit_of_mem_toDigits (Nat.succ_pos 9) (Nat.le_refl 10) hmem) (by decide)
  change '/' ∉ (name ++ "_" ++ Nat.repr n).toList
  simp [h, Nat.repr, hdigits]

end Identifier

theorem NameSet.slash_notMem_firstFree (used : NameSet) {candidate : String}
    (h : '/' ∉ candidate.toList) : '/' ∉ (used.firstFree candidate).toList := by
  cases hused : used.contains candidate with
  | false =>
      rw [firstFree_of_free hused]
      exact h
  | true =>
      obtain ⟨n, _, hname, _⟩ := exists_firstFree_eq_numbered hused
      rw [hname]
      exact Identifier.slash_notMem_numbered h n

namespace Package

theorem toList_importPath (package : String) :
    (importPath package).toList = package.toList.map fun c => if c = '.' then '/' else c :=
  String.toList_map

theorem dot_notMem_map (text : List Char) :
    '.' ∉ text.map fun c => if c = '.' then '/' else c := by
  rw [List.mem_map]
  rintro ⟨c, _, hc⟩
  split at hc
  · exact absurd hc (by decide)
  · rename_i hne
    exact hne hc

theorem dot_notMem_importPath (package : String) : '.' ∉ (importPath package).toList := by
  rw [toList_importPath]
  exact dot_notMem_map _

theorem importPath_injective {package other : String} (h : '/' ∉ package.toList)
    (h' : '/' ∉ other.toList) (heq : importPath package = importPath other) :
    package = other := by
  have hback : ∀ text : List Char, '/' ∉ text →
      (text.map fun c => if c = '.' then '/' else c).map (fun c => if c = '/' then '.' else c) =
        text := by
    intro text htext
    rw [List.map_map]
    refine (List.map_congr_left fun c hc => ?_).trans (List.map_id text)
    have hslash : c ≠ '/' := fun heq => htext (heq ▸ hc)
    rw [Function.comp_apply]
    by_cases hdot : c = '.'
    · rw [if_pos hdot, if_pos rfl, hdot]
      rfl
    · rw [if_neg hdot, if_neg hslash]
      rfl
  have hlists := congrArg String.toList heq
  rw [toList_importPath, toList_importPath] at hlists
  rw [← String.toList_inj, ← hback _ h, hlists, hback _ h']

theorem slash_notMem_dotted {parts : List String} (h : ∀ part ∈ parts, '/' ∉ part.toList) :
    '/' ∉ (dotted parts).toList := by
  rw [dotted]
  induction parts with
  | nil => simp
  | cons part rest ih =>
      have hrest := ih fun other ho => h other (List.mem_cons_of_mem _ ho)
      cases rest with
      | nil =>
          rw [String.intercalate_singleton]
          exact h part List.mem_cons_self
      | cons next more =>
          rw [String.intercalate_cons_cons, String.toList_append, String.toList_append,
            List.mem_append, List.mem_append]
          rintro ((hpart | hdot) | hmem)
          · exact h part List.mem_cons_self hpart
          · exact absurd hdot (by decide)
          · exact hrest hmem

end Package

namespace Config

theorem toList_enumPackage (config : Config) : config.enumPackage.toList =
    config.basePackage.toList ++ '.' :: config.enumPackageName.toList := by
  change (config.basePackage ++ "." ++ config.enumPackageName).toList = _
  rw [String.toList_append, String.toList_append, List.append_assoc]
  rfl

theorem toList_enumImport (config : Config) : config.enumImport.toList =
    config.basePackage.toList ++ '/' :: config.enumPackageName.toList := by
  change (config.basePackage ++ "/" ++ config.enumPackageName).toList = _
  rw [String.toList_append, String.toList_append, List.append_assoc]
  rfl

/-- The import of shared enums is that of their package exactly if its name has no dots but the one
in the middle. -/
theorem enumImport_eq_iff (config : Config) :
    config.enumImport = Package.importPath config.enumPackage ↔
      '.' ∉ config.basePackage.toList ∧ '.' ∉ config.enumPackageName.toList := by
  have hmap : ∀ text : List Char,
      (text.map fun c => if c = '.' then '/' else c) = text ↔ '.' ∉ text := by
    intro text
    constructor
    · intro h
      rw [← h]
      exact Package.dot_notMem_map text
    · intro h
      refine (List.map_congr_left fun c hc => ?_).trans (List.map_id text)
      exact if_neg (ne_of_mem_of_not_mem hc h)
  rw [← String.toList_inj, toList_enumImport, Package.toList_importPath, toList_enumPackage,
    List.map_append, List.map_cons, ← hmap, ← hmap]
  constructor
  · intro h
    obtain ⟨hbase, hrest⟩ := List.append_inj h (List.length_map _).symm
    exact ⟨hbase.symm, (List.cons.inj hrest).2.symm⟩
  · rintro ⟨hbase, hrest⟩
    rw [hbase, hrest]
    rfl

/-- It is no import path at all unless it is that one. -/
theorem enumImport_eq_of_eq {config : Config} {package : String}
    (h : config.enumImport = Package.importPath package) :
    config.enumImport = Package.importPath config.enumPackage := by
  have hdot := Package.dot_notMem_importPath package
  rw [← h, toList_enumImport, List.mem_append, List.mem_cons, not_or, not_or] at hdot
  exact config.enumImport_eq_iff.2 ⟨hdot.1, hdot.2.2⟩

theorem slash_notMem_enumPackage {config : Config} (hbase : '/' ∉ config.basePackage.toList)
    (henum : '/' ∉ config.enumPackageName.toList) : '/' ∉ config.enumPackage.toList := by
  rw [toList_enumPackage]
  simp [hbase, henum]

end Config

namespace Registry

variable {asks : Site → LeafType → Prop} {start registry after : Registry}

/-- Neither the base package nor a package that has been given out has a slash. -/
structure SlashFree (registry : Registry) : Prop where
  base : '/' ∉ registry.basePackage.toList
  packages : ∀ {anchor package}, registry.packages.find? anchor = some package →
    '/' ∉ package.toList

theorem slash_notMem_packageCandidate (compress : Bool) {base : String} (h : '/' ∉ base.toList)
    (site : Site) : '/' ∉ (site.packageCandidate compress base).toList := by
  refine Package.slash_notMem_dotted fun part hpart => ?_
  rcases List.mem_cons.1 hpart with rfl | hpart
  · exact h
  · obtain ⟨node, _, rfl⟩ := List.mem_map.1 (List.mem_reverse.1 hpart)
    exact Identifier.slash_notMem_sanitize _

theorem SlashFree.packageFor (h : registry.SlashFree) (compress : Bool) (site : Site) :
    (packageFor compress site registry).2.SlashFree := by
  rw [packageFor_eq]
  cases hfind : registry.packages.find? (site.anchor compress) with
  | some package => exact h
  | none =>
      refine ⟨h.base, fun {anchor package} hpackage => ?_⟩
      change (registry.packages.insert _ _).find? anchor = some package at hpackage
      rw [SortedMap.find?_insert] at hpackage
      split at hpackage
      · cases hpackage
        exact NameSet.slash_notMem_firstFree _ (slash_notMem_packageCandidate compress h.base site)
      · exact h.packages hpackage

theorem SlashFree.withName (h : registry.SlashFree) (owner : Owner) (package name : String)
    (count : Nat) : (registry.withName owner package name count).SlashFree := by
  cases owner <;> exact ⟨h.base, h.packages⟩

theorem Grows.slashFree (h : start.Grows asks after) (hstart : start.SlashFree) :
    after.SlashFree := by
  induction h with
  | refl => exact hstart
  | package _ compress site ih => exact ih.packageFor compress site
  | message _ compress site ih =>
      exact messageName_keeps ih (·.packageFor compress site) fun package name count h =>
        h.withName (.directory site) package name count
  | keyMessage _ list _ package ih =>
      exact keyMessageName_keeps ih fun name count h => h.withName (.keys list) package name count
  | @sharedEnum registry _ leaf type _ ih =>
      cases hrun : sharedEnumName leaf.pathText type registry with
      | mk name ended =>
          rcases sharedEnumName_cases hrun with ⟨_, rfl⟩ | ⟨_, _, count, rfl⟩
          · exact ih
          · exact ⟨ih.base, ih.packages⟩

theorem slashFree_ready {config : Config} {set : DirectorySet}
    (hbase : '/' ∉ config.basePackage.toList) (h : ready config set = .ok registry) :
    registry.SlashFree := by
  obtain ⟨named, hgrows, rfl⟩ := grows_ready h
  have hnamed := hgrows.slashFree ⟨hbase, (nomatch ·)⟩
  exact ⟨hnamed.base, hnamed.packages⟩

end Registry

end YangToProto

import YangToProto.Proofs.Naming.PackageNames
import YangToProto.Proofs.Naming.PackageSharing
import YangToProto.Proofs.Naming.Prepass
import YangToProto.Proofs.Proto.LegalNames
import YangToProto.Proofs.Text.Segments

/-!
# Parts of packages

A package that has been given out is the base package with a part for each ancestor that has a
message. Only the last part may have a numeric suffix, and the base package never has one: it is
wanted once, and every other package is longer (`Registry.ComesFrom.packagesMade`).
-/

namespace YangToProto

open Identifier

variable {config : Config} {tree : Tree} {compress : Bool} {site other holder : Site}

namespace Package

/-- A numeric suffix goes to the last part. -/
theorem numbered_dotted {parts : List String} (hne : parts ≠ []) (part : String) (n : Nat) :
    numbered (dotted (parts ++ [part])) n = dotted (parts ++ [numbered part n]) := by
  have hsplit : ∀ last, dotted (parts ++ [last]) = dotted parts ++ "." ++ last := fun last => by
    rw [dotted, String.intercalate_append_of_ne_nil hne (List.cons_ne_nil _ _),
      String.intercalate_singleton, dotted]
  rw [hsplit, hsplit]
  change dotted parts ++ "." ++ part ++ "_" ++ Nat.repr n =
    dotted parts ++ "." ++ (part ++ "_" ++ Nat.repr n)
  simp only [String.append_assoc]

/-- The parts that follow a base come back from the text. -/
theorem split_dotted (base : String) {parts : List String}
    (h : ∀ part ∈ parts, '.' ∉ part.toList) :
    Segments.split '.' (dotted (base :: parts)).toList =
      Segments.split '.' base.toList ++ parts.map String.toList := by
  induction parts generalizing base with
  | nil => simp [dotted]
  | cons part rest ih =>
      have hrest := ih part fun other ho => h other (List.mem_cons_of_mem _ ho)
      have hpart := Segments.split_of_not_mem (h part List.mem_cons_self)
      have htext : (dotted (base :: part :: rest)).toList =
          base.toList ++ '.' :: (dotted (part :: rest)).toList := by
        rw [dotted, String.intercalate_cons_cons, String.toList_append, String.toList_append,
          List.append_assoc]
        rfl
      rw [htext, Segments.split_append_cons, hrest, hpart]
      rfl

end Package

/-!
## Parts by ancestors
-/

namespace Site

/-- The parts that the package wanted for the node's message has behind the base. -/
def packageParts (compress : Bool) (site : Site) : List String :=
  ((keptAmong compress site.ancestors).map fun kept => sanitize kept.name).reverse

theorem packageCandidate_eq_dotted (compress : Bool) (base : String) (site : Site) :
    site.packageCandidate compress base = Package.dotted (base :: site.packageParts compress) :=
  rfl

theorem packageParts_of_holder? (h : site.holder? compress = some holder) :
    site.packageParts compress = holder.packageParts compress ++ [sanitize holder.name] := by
  have hwalk : holderAmong? compress site.ancestors = some holder := h
  rw [packageParts, keptAmong_eq, hwalk, List.map_cons, List.reverse_cons]
  rfl

theorem packageParts_of_none (h : site.holder? compress = none) :
    site.packageParts compress = [] := by
  have hwalk : holderAmong? compress site.ancestors = none := h
  rw [packageParts, keptAmong_eq, hwalk]
  rfl

/-- The parts are those of the package that the node's message has: the last one may have got a
suffix. -/
inductive PartsOf (compress : Bool) (site : Site) : List String → Prop where
  | base (h : site.holder? compress = none) : PartsOf compress site []
  | below {holder : Site} {part : String} (h : site.holder? compress = some holder)
      (hpart : MadeFrom (sanitize holder.name) part) :
      PartsOf compress site (holder.packageParts compress ++ [part])

variable {parts : List String}

theorem PartsOf.of_holder?_eq (h : site.PartsOf compress parts)
    (hsame : site.holder? compress = other.holder? compress) : other.PartsOf compress parts := by
  cases h with
  | base hnone => exact .base (hsame ▸ hnone)
  | below hholder hpart => exact .below (hsame ▸ hholder) hpart

theorem mem_packageParts {part : String} (h : part ∈ site.packageParts compress) :
    ∃ kept ∈ keptAmong compress site.ancestors, part = sanitize kept.name := by
  obtain ⟨kept, hkept, rfl⟩ := List.mem_map.1 (List.mem_reverse.1 h)
  exact ⟨kept, hkept, rfl⟩

/-- Every part is made from the name of an ancestor that has a message. -/
theorem PartsOf.madeFrom (h : site.PartsOf compress parts) :
    ∀ part ∈ parts, ∃ kept ∈ keptAmong compress site.ancestors,
      MadeFrom (sanitize kept.name) part := by
  cases h with
  | base _ => exact fun part hpart => absurd hpart List.not_mem_nil
  | @below holder last hholder hlast =>
      have hwalk : holderAmong? compress site.ancestors = some holder := hholder
      intro part hpart
      rw [keptAmong_eq, hwalk]
      rcases List.mem_append.1 hpart with hpart | hpart
      · obtain ⟨kept, hkept, rfl⟩ := mem_packageParts hpart
        exact ⟨kept, List.mem_cons_of_mem _ hkept, .self⟩
      · rw [List.mem_singleton.1 hpart]
        exact ⟨holder, List.mem_cons_self, hlast⟩

theorem PartsOf.dot_notMem (h : site.PartsOf compress parts) :
    ∀ part ∈ parts, '.' ∉ part.toList := by
  intro part hpart hdot
  obtain ⟨node, _, hmade⟩ := h.madeFrom part hpart
  exact absurd (isAllowed_of_madeFrom (fun _ => isAllowed_of_mem_sanitize) hmade '.' hdot)
    (by decide)

end Site

namespace Registry

variable {registry after : Registry} {package : String}

/-- Every package has been given out for a site of the tree and has its parts. Nothing else is taken
but the package of shared enums. -/
structure PackagesMade (config : Config) (tree : Tree) (registry : Registry) : Prop where
  base : registry.basePackage = config.basePackage
  made : ∀ {anchor package}, registry.packages.find? anchor = some package →
    ∃ site parts, tree.HasSite site ∧ site.anchor config.compressPaths = anchor ∧
      site.PartsOf config.compressPaths parts ∧
      package = Package.dotted (config.basePackage :: parts)
  used : ∀ {package}, registry.usedPackages.contains package = true →
    package = config.enumPackage ∨ ∃ anchor, registry.packages.find? anchor = some package

theorem packagesMade_cold (config : Config) (tree : Tree) :
    (cold config).PackagesMade config tree where
  base := rfl
  made := (nomatch ·)
  used := fun {package} h => by
    have hused : (NameSet.add ∅ config.enumPackage).contains package = true := h
    rw [NameSet.contains_add, Bool.or_eq_true, decide_eq_true_iff] at hused
    exact Or.inl (hused.resolve_right fun hempty => nomatch hempty)

theorem dotted_ne_base (base : String) {parts : List String} (hne : parts ≠ [])
    (hdot : ∀ part ∈ parts, '.' ∉ part.toList) : Package.dotted (base :: parts) ≠ base := by
  intro h
  have hlength := congrArg (fun text => (Segments.split '.' text.toList).length) h
  rw [Package.split_dotted base hdot, List.length_append, List.length_map] at hlength
  have hpos := List.length_pos_iff.2 hne
  omega

theorem enumPackage_ne_base (config : Config) : config.enumPackage ≠ config.basePackage := by
  intro h
  have hlength := congrArg (fun text => (Segments.split '.' text.toList).length) h
  rw [Config.toList_enumPackage, Segments.split_append_cons, List.length_append] at hlength
  have hpos := List.length_pos_iff.2 (Segments.split_ne_nil '.' config.enumPackageName.toList)
  omega

/-- The base package is free as long as no site that no message holds has asked for its package. -/
theorem PackagesMade.base_free (h : registry.PackagesMade config tree)
    (hholder : site.holder? config.compressPaths = none)
    (hnone : registry.packages.find? (site.anchor config.compressPaths) = none) :
    registry.usedPackages.contains config.basePackage = false := by
  rw [← Bool.not_eq_true]
  intro hused
  rcases h.used hused with heq | ⟨anchor, hfound⟩
  · exact enumPackage_ne_base config heq.symm
  · obtain ⟨other, parts, _, rfl, hparts, hpackage⟩ := h.made hfound
    cases hparts with
    | base hother =>
        rw [Site.anchor_eq, hother] at hfound
        rw [Site.anchor_eq, hholder, hfound] at hnone
        cases hnone
    | below hother hpart =>
        exact dotted_ne_base _ (by simp) (Site.PartsOf.below hother hpart).dot_notMem
          hpackage.symm

/-- The package that a site gets has the parts of the site. -/
theorem PackagesMade.exists_parts (h : registry.PackagesMade config tree)
    (hnone : registry.packages.find? (site.anchor config.compressPaths) = none) :
    ∃ parts, site.PartsOf config.compressPaths parts ∧
      registry.usedPackages.firstFree
          (site.packageCandidate config.compressPaths registry.basePackage) =
        Package.dotted (config.basePackage :: parts) := by
  rw [h.base, Site.packageCandidate_eq_dotted]
  cases hholder : site.holder? config.compressPaths with
  | none =>
      have hcandidate : Package.dotted [config.basePackage] = config.basePackage :=
        String.intercalate_singleton
      rw [Site.packageParts_of_none hholder, hcandidate,
        NameSet.firstFree_of_free (h.base_free hholder hnone)]
      exact ⟨[], .base hholder, hcandidate.symm⟩
  | some holder =>
      rw [Site.packageParts_of_holder? hholder, ← List.cons_append]
      have hmade := registry.usedPackages.madeFrom_firstFree (Package.dotted
        (config.basePackage :: holder.packageParts config.compressPaths ++
          [sanitize holder.name]))
      generalize registry.usedPackages.firstFree _ = given at hmade
      cases hmade with
      | self => exact ⟨_, .below hholder .self, rfl⟩
      | numbered n =>
          refine ⟨_, .below hholder (.numbered n), ?_⟩
          rw [Package.numbered_dotted (List.cons_ne_nil _ _)]
          rfl

theorem PackagesMade.packageFor (h : registry.PackagesMade config tree)
    (hsite : tree.HasSite site) :
    (packageFor config.compressPaths site registry).2.PackagesMade config tree := by
  rw [packageFor_eq]
  cases hfind : registry.packages.find? (site.anchor config.compressPaths) with
  | some package => exact h
  | none =>
      obtain ⟨parts, hparts, hgiven⟩ := h.exists_parts hfind
      dsimp only
      rw [hgiven]
      refine ⟨h.base, fun {anchor package} hpackage => ?_, fun {package} hused => ?_⟩
      · change (registry.packages.insert _ _).find? anchor = some package at hpackage
        rw [SortedMap.find?_insert] at hpackage
        split at hpackage
        · rename_i hanchor
          cases hpackage
          exact ⟨site, parts, hsite, hanchor.symm, hparts, rfl⟩
        · exact h.made hpackage
      · change (registry.usedPackages.add _).contains package = true at hused
        rw [NameSet.contains_add, Bool.or_eq_true, decide_eq_true_iff] at hused
        rcases hused with rfl | hused
        · exact Or.inr ⟨_, SortedMap.find?_insert_self _ _ _⟩
        · rcases h.used hused with henums | ⟨anchor, hfound⟩
          · exact Or.inl henums
          · exact Or.inr ⟨anchor, SortedMap.included_insert hfind _ _ _ hfound⟩

theorem PackagesMade.of_samePackages (h : registry.PackagesMade config tree)
    (hsame : registry.SamePackages after) : after.PackagesMade config tree where
  base := hsame.base.trans h.base
  made := fun hpackage => h.made (hsame.packages ▸ hpackage)
  used := fun hused => hsame.packages ▸ h.used (hsame.used ▸ hused)

theorem packagesMade_packagesInTurn {owners : List Owner}
    (hsites : ∀ owner ∈ owners, tree.HasSite owner.site) :
    (packagesInTurn config owners).PackagesMade config tree := by
  rw [packagesInTurn]
  have hcold := packagesMade_cold config tree
  generalize cold config = start at hcold
  induction owners generalizing start with
  | nil => exact hcold
  | cons owner rest ih =>
      refine ih (fun other ho => hsites other (List.mem_cons_of_mem _ ho)) _ ?_
      cases owner with
      | directory site => exact hcold.packageFor (hsites _ List.mem_cons_self)
      | keys list => exact hcold

/-- The packages given out for owners in turn have the parts of the owners' ancestors. -/
theorem ComesFrom.packagesMade {owners : List Owner}
    (h : registry.ComesFrom config tree owners) : registry.PackagesMade config tree :=
  (packagesMade_packagesInTurn h.inTurn.sites).of_samePackages h.packages

/-- Without slashes in names, the package of a site has the parts of the site. -/
theorem PackagesMade.parts_of_find? (h : registry.PackagesMade config tree)
    (hroot : tree.root.Distinct) (hslash : tree.SlashFree) (hsite : tree.HasSite site)
    (hfound : registry.packages.find? (site.anchor config.compressPaths) = some package) :
    ∃ parts, site.PartsOf config.compressPaths parts ∧
      package = Package.dotted (config.basePackage :: parts) := by
  obtain ⟨other, parts, hother, hanchor, hparts, hpackage⟩ := h.made hfound
  have hsame := (Tree.anchor_eq_iff hroot hslash hother hsite).1 hanchor
  exact ⟨parts, hparts.of_holder?_eq hsame, hpackage⟩

end Registry

end YangToProto

import YangToProto.Proofs.Naming.Steps

/-!
# Which nodes share a package

A package belongs to an anchor, which the holder of a node determines (`Site.anchor_eq`), and where
no name holds a slash the nodes of one anchor are those that one message holds
(`Tree.anchor_eq_iff`). While packages are given out, different anchors have different packages, and
none of them is one that was reserved (`Registry.PackagesApart`), so nodes share a package exactly
if they share a holder (`Registry.PackagesApart.package_eq_iff`).
-/

namespace YangToProto

variable {compress : Bool} {tree : Tree} {site other holder : Site}

theorem Site.keptAmong_cons (node : Node) {above : List Node} (h : above ≠ []) :
    keptAmong compress (node :: above) =
      if isElided compress ⟨node, above⟩ then keptAmong compress above
      else ⟨node, above⟩ :: keptAmong compress above := by
  cases above with
  | nil => exact absurd rfl h
  | cons parent above => rfl

/-- The walk upwards that collects the parts of a package begins where the walk that looks for the
message ends. -/
theorem Site.keptAmong_eq (compress : Bool) (above : List Node) :
    keptAmong compress above =
      match holderAmong? compress above with
      | none => []
      | some holder => holder :: keptAmong compress holder.ancestors := by
  induction above with
  | nil => rfl
  | cons node above ih =>
      cases above with
      | nil => rfl
      | cons parent above =>
          simp only [keptAmong, holderAmong?]
          split
          · exact ih
          · rfl

/-- A package is that of a holder. -/
theorem Site.anchor_eq (compress : Bool) (site : Site) :
    site.anchor compress = ⟨compress, ((site.holder? compress).map Site.pathText).getD ""⟩ := by
  rw [anchor, keptAmong_eq, holder?]
  cases holderAmong? compress site.ancestors <;> rfl

theorem Site.pathText_ne_empty (site : Site) : site.pathText ≠ "" := by
  intro h
  have hslash := congrArg String.toList h
  simp [Site.pathText, YangToProto.pathText] at hslash

namespace Tree

/-- The ancestors of a site that have messages belong to the tree and stand below its module. -/
theorem HasSite.of_mem_keptAmong (hsite : tree.HasSite site) {kept : Site}
    (h : kept ∈ Site.keptAmong compress site.ancestors) :
    tree.HasSite kept ∧ kept.ancestors ≠ [] := by
  induction hsite with
  | self => cases h
  | @step parent child hparent _ ih =>
      change kept ∈ Site.keptAmong compress (parent.node :: parent.ancestors) at h
      by_cases hancestors : parent.ancestors = []
      · rw [hancestors] at h
        cases h
      rw [Site.keptAmong_cons _ hancestors] at h
      split at h
      · exact ih h
      · rcases List.mem_cons.1 h with rfl | h
        · exact ⟨hparent, hancestors⟩
        · exact ih h

theorem HasSite.holder? (hsite : tree.HasSite site) (h : site.holder? compress = some holder) :
    tree.HasSite holder := by
  have hwalk : Site.holderAmong? compress site.ancestors = some holder := h
  have hkept : holder ∈ Site.keptAmong compress site.ancestors := by
    rw [Site.keptAmong_eq, hwalk]
    exact List.mem_cons_self
  exact (hsite.of_mem_keptAmong hkept).1

/-- Without slashes in names, nodes have one anchor exactly if one message holds them, or none
does. -/
theorem anchor_eq_iff (hroot : tree.root.Distinct) (hslash : tree.SlashFree)
    (hsite : tree.HasSite site) (hother : tree.HasSite other) :
    site.anchor compress = other.anchor compress ↔
      site.holder? compress = other.holder? compress := by
  constructor
  · intro h
    have hpath := congrArg Anchor.path h
    simp only [Site.anchor_eq] at hpath
    cases hone : site.holder? compress with
    | none =>
        cases htwo : other.holder? compress with
        | none => rfl
        | some holder =>
            rw [hone, htwo] at hpath
            exact absurd hpath.symm holder.pathText_ne_empty
    | some holder =>
        cases htwo : other.holder? compress with
        | none =>
            rw [hone, htwo] at hpath
            exact absurd hpath holder.pathText_ne_empty
        | some holder' =>
            rw [hone, htwo] at hpath
            rw [tree.eq_of_pathText_eq hroot hslash (hsite.holder? hone) (hother.holder? htwo)
              hpath]
  · intro h
    rw [Site.anchor_eq, Site.anchor_eq, h]

end Tree

namespace Registry

variable {reserved : List String} {registry after : Registry} {package : String}

/-- Different anchors have different packages. Those packages are taken and not reserved, and
reserved ones are taken as well. -/
structure PackagesApart (reserved : List String) (registry : Registry) : Prop where
  injective : ∀ {anchor other package}, registry.packages.find? anchor = some package →
    registry.packages.find? other = some package → anchor = other
  used : ∀ {anchor package}, registry.packages.find? anchor = some package →
    registry.usedPackages.contains package = true
  kept : ∀ package ∈ reserved, registry.usedPackages.contains package = true
  free : ∀ {anchor package}, registry.packages.find? anchor = some package → package ∉ reserved

theorem PackagesApart.of_same (h : registry.PackagesApart reserved)
    (hpackages : after.packages = registry.packages)
    (hused : after.usedPackages = registry.usedPackages) : after.PackagesApart reserved := by
  constructor
  · rw [hpackages]
    exact h.injective
  · rw [hpackages, hused]
    exact h.used
  · rw [hused]
    exact h.kept
  · rw [hpackages]
    exact h.free

theorem PackagesApart.withPackage (h : registry.PackagesApart reserved) (anchor : Anchor)
    (hfree : registry.usedPackages.contains package = false) (count : Nat) :
    (registry.withPackage anchor package count).PackagesApart reserved := by
  have hne : ∀ other given, registry.packages.find? other = some given → given ≠ package := by
    rintro other given hgiven rfl
    rw [h.used hgiven] at hfree
    cases hfree
  constructor
  · intro one two given hone htwo
    rw [Registry.withPackage, SortedMap.find?_insert] at hone htwo
    split at hone
    · rename_i hanchor
      cases hone
      split at htwo
      · rename_i hanchor'
        rw [hanchor, hanchor']
      · exact absurd rfl (hne _ _ htwo)
    · split at htwo
      · cases htwo
        exact absurd rfl (hne _ _ hone)
      · exact h.injective hone htwo
  · intro other given hgiven
    rw [Registry.withPackage, SortedMap.find?_insert] at hgiven
    rw [Registry.withPackage, NameSet.contains_add]
    split at hgiven
    · cases hgiven
      simp
    · rw [h.used hgiven, Bool.or_true]
  · exact fun given hgiven => NameSet.contains_add_of_contains (h.kept given hgiven) package
  · intro other given hgiven
    rw [Registry.withPackage, SortedMap.find?_insert] at hgiven
    split at hgiven
    · cases hgiven
      intro hreserved
      rw [h.kept package hreserved] at hfree
      cases hfree
    · exact h.free hgiven

theorem PackagesApart.withName (h : registry.PackagesApart reserved) (owner : Owner)
    (package name : String) (count : Nat) :
    (registry.withName owner package name count).PackagesApart reserved := by
  cases owner with
  | directory site => exact h.of_same rfl rfl
  | keys list => exact h.of_same rfl rfl

theorem PackagesApart.packageFor (h : registry.PackagesApart reserved) (compress : Bool)
    (site : Site) : (packageFor compress site registry).2.PackagesApart reserved := by
  cases hrun : Registry.packageFor compress site registry with
  | mk package after =>
      rcases packageFor_cases hrun with ⟨_, rfl⟩ | ⟨_, hfree, count, rfl⟩
      · exact h
      · exact h.withPackage _ hfree count

/-- Nodes have one package exactly if one message holds them, and never a reserved one. -/
theorem PackagesApart.package_eq_iff (hroot : tree.root.Distinct) (hslash : tree.SlashFree)
    (h : registry.PackagesApart reserved) {package' : String}
    (hsite : tree.HasSite site) (hother : tree.HasSite other)
    (hfound : registry.packages.find? (site.anchor compress) = some package)
    (hfound' : registry.packages.find? (other.anchor compress) = some package') :
    (package = package' ↔ site.holder? compress = other.holder? compress) ∧
      package ∉ reserved := by
  refine ⟨?_, h.free hfound⟩
  rw [← Tree.anchor_eq_iff hroot hslash hsite hother]
  constructor
  · rintro rfl
    exact h.injective hfound hfound'
  · intro hanchor
    rw [hanchor, hfound'] at hfound
    exact (Option.some.inj hfound).symm

/-- The registry before any name is given out, with packages that no node may take. -/
def fresh (basePackage : String) (reserved : List String) : Registry :=
  reserved.foldl Registry.reserve (new basePackage)

theorem foldl_reserve_eq (registry : Registry) (reserved : List String) :
    reserved.foldl Registry.reserve registry =
      { registry with usedPackages := registry.usedPackages.addAll reserved } := by
  induction reserved generalizing registry with
  | nil => rfl
  | cons package rest ih =>
      rw [List.foldl_cons, ih]
      rfl

theorem packagesApart_fresh (basePackage : String) (reserved : List String) :
    (fresh basePackage reserved).PackagesApart reserved := by
  rw [fresh, foldl_reserve_eq]
  refine ⟨(nomatch ·), (nomatch ·), fun package hmem => ?_, (nomatch ·)⟩
  exact (NameSet.contains_addAll _ _ _).trans (by simp [hmem])

end Registry

end YangToProto

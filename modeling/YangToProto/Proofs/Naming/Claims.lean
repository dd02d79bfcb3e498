import YangToProto.Proofs.Naming.Calls
import YangToProto.Proofs.Naming.Places

/-!
# Names claimed by calls

A message that has no name yet claims one in a package. The name is free there until then, so in any
run of calls no name of a package is claimed twice (`Registry.nodup_claims`), and every name that a
message has was claimed for it (`Registry.name?_afterCalls`). What calls guarantee is put together
in `Tree.names_of_calls`.
-/

namespace YangToProto

namespace Registry

/-- A message with the name that it has taken in a package. -/
structure Claim where
  owner : Owner
  package : String
  name : String

namespace Call

def owner? : Call → Option Owner
  | package _ => none
  | message site => some (.directory site)
  | keyMessage list _ _ => some (.keys list)
  | sharedEnum _ _ => none

/-- What a call claims. A message that has a name claims no other one. -/
def claim? (compress : Bool) (registry : Registry) : Call → Option Claim
  | message site =>
    if registry.messages.contains site.pathText then none
    else (messageName compress site registry).1.toOption.map fun name =>
      ⟨.directory site, (packageFor compress site registry).1, name⟩
  | keyMessage list listMessage home =>
    if registry.keyMessages.contains list.pathText then none
    else (keyMessageName list listMessage home registry).1.toOption.map fun name =>
      ⟨.keys list, home, name⟩
  | package _ => none
  | sharedEnum _ _ => none

end Call

def claims (compress : Bool) : List Call → Registry → List Claim
  | [], _ => []
  | call :: rest, registry =>
    (call.claim? compress registry).toList ++ claims compress rest (call.run compress registry).2

variable {compress : Bool} {registry middle later : Registry} {call : Call} {calls : List Call}
  {name : String} {tree : Tree} {owner : Owner}

/-- The package of a claim is that of the node, or for a key wrapper the one that a call has given
with the list. -/
def Claim.InPlace (compress : Bool) (calls : List Call) (registry : Registry) (claim : Claim) :
    Prop :=
  match claim.owner with
  | .directory site => registry.packages.find? (site.anchor compress) = some claim.package
  | .keys list => ∃ listMessage, Call.keyMessage list listMessage claim.package ∈ calls

theorem Claim.InPlace.mono {claim : Claim} (h : claim.InPlace compress calls registry)
    {more : List Call} (hcalls : calls ⊆ more) (hkept : registry.KeptBy later) :
    claim.InPlace compress more later := by
  obtain ⟨owner, package, name⟩ := claim
  cases owner with
  | directory site => exact hkept.packages _ _ h
  | keys list =>
      obtain ⟨listMessage, hmem⟩ := h
      exact ⟨listMessage, hcalls hmem⟩

/-!
## What a call claims
-/

/-- The same message names are taken, and by the same messages. -/
structure SameClaims (registry after : Registry) : Prop where
  taken : ∀ package name, after.isTaken package name = registry.isTaken package name
  names : ∀ owner, after.name? owner = registry.name? owner

theorem SameClaims.refl (registry : Registry) : registry.SameClaims registry :=
  ⟨fun _ _ => rfl, fun _ => rfl⟩

theorem sameClaims_packageFor (compress : Bool) (site : Site) (registry : Registry) :
    registry.SameClaims (packageFor compress site registry).2 := by
  rw [packageFor]
  split
  · exact .refl registry
  · exact ⟨fun _ _ => rfl, fun owner => by cases owner <;> rfl⟩

theorem sameClaims_sharedEnumName (leafPath : String) (type : LeafType) (registry : Registry) :
    registry.SameClaims (sharedEnumName leafPath type registry).2 := by
  rw [sharedEnumName]
  split
  · exact .refl registry
  · exact ⟨fun _ _ => rfl, fun owner => by cases owner <;> rfl⟩

/-- A call claims nothing and leaves the names as they are, or it claims a free name for the message
that it is about, and records just that. -/
theorem run_cases (compress : Bool) (call : Call) (registry : Registry) :
    (call.claim? compress registry = none ∧
      registry.SameClaims (call.run compress registry).2) ∨
    ∃ claim middle count, call.claim? compress registry = some claim ∧
      call.site? = some claim.owner.site ∧
      registry.isTaken claim.package claim.name = false ∧ registry.SameClaims middle ∧
      (call.run compress registry).2 =
        middle.withName claim.owner claim.package claim.name count ∧
      claim.InPlace compress [call] (call.run compress registry).2 := by
  cases call with
  | package site => exact Or.inl ⟨rfl, sameClaims_packageFor compress site registry⟩
  | sharedEnum leafPath type =>
      exact Or.inl ⟨rfl, sameClaims_sharedEnumName leafPath type registry⟩
  | message site =>
      rw [Call.claim?, Call.run]
      cases hrun : messageName compress site registry with
      | mk outcome after =>
          cases outcome with
          | error error =>
              rw [eq_of_messageName_error hrun]
              refine Or.inl ⟨?_, .refl registry⟩
              split <;> rfl
          | ok name =>
              rcases messageName_cases hrun with
                ⟨hfound, rfl⟩ | ⟨hnone, package, middle, count, hpackage, hfree, rfl⟩
              · rw [if_pos ((SortedMap.contains_iff _ _).2 ⟨name, hfound⟩)]
                exact Or.inl ⟨rfl, .refl _⟩
              · have hsame := sameClaims_packageFor compress site registry
                rw [hpackage] at hsame
                rw [(SortedMap.contains_eq_false_iff _ _).2 hnone, hpackage]
                exact Or.inr ⟨⟨.directory site, package, name⟩, middle, count, rfl, rfl,
                  (hsame.taken package name).symm.trans hfree, hsame, rfl,
                  (keptBy_packageFor hpackage).2⟩
  | keyMessage list listMessage home =>
      rw [Call.claim?, Call.run]
      cases hrun : keyMessageName list listMessage home registry with
      | mk outcome after =>
          cases outcome with
          | error error =>
              rw [eq_of_keyMessageName_error hrun]
              refine Or.inl ⟨?_, .refl registry⟩
              split <;> rfl
          | ok name =>
              rcases keyMessageName_cases hrun with ⟨hfound, rfl⟩ | ⟨hnone, hfree, count, rfl⟩
              · rw [if_pos ((SortedMap.contains_iff _ _).2 ⟨name, hfound⟩)]
                exact Or.inl ⟨rfl, .refl _⟩
              · rw [(SortedMap.contains_eq_false_iff _ _).2 hnone]
                exact Or.inr ⟨⟨.keys list, home, name⟩, registry, count, rfl, rfl, hfree,
                  .refl registry, rfl, listMessage, List.mem_cons_self⟩

/-!
## No name is claimed twice
-/

/-- A call takes the name that it claims, and no name becomes free. -/
theorem isTaken_run (compress : Bool) (call : Call) (registry : Registry) :
    (∀ claim ∈ call.claim? compress registry,
      registry.isTaken claim.package claim.name = false ∧
        (call.run compress registry).2.isTaken claim.package claim.name = true) ∧
    ∀ package name, registry.isTaken package name = true →
      (call.run compress registry).2.isTaken package name = true := by
  rcases run_cases compress call registry with
    ⟨hclaim, hsame⟩ | ⟨claim, middle, count, hclaim, _, hfree, hsame, hafter, _⟩
  · rw [hclaim]
    exact ⟨(fun _ h => nomatch h), fun package name h => (hsame.taken package name).trans h⟩
  · rw [hclaim, hafter]
    refine ⟨fun other hother => ?_, fun package name h => ?_⟩
    · cases hother
      exact ⟨hfree, by simp [isTaken_withName]⟩
    · rw [isTaken_withName, hsame.taken, h, Bool.or_true]

/-- A name is free until it is claimed. -/
theorem isTaken_of_mem_claims {claim : Claim} (h : claim ∈ claims compress calls registry) :
    registry.isTaken claim.package claim.name = false := by
  induction calls generalizing registry with
  | nil => cases h
  | cons call rest ih =>
      obtain ⟨hclaim, hkept⟩ := isTaken_run compress call registry
      rcases List.mem_append.1 h with h | h
      · exact (hclaim claim (Option.mem_toList.1 h)).1
      · rw [← Bool.not_eq_true]
        intro htaken
        have hfree := ih h
        rw [hkept _ _ htaken] at hfree
        cases hfree

/-- No name is claimed twice in one package. -/
theorem nodup_claims (compress : Bool) (calls : List Call) (registry : Registry) :
    ((claims compress calls registry).map fun claim => (claim.package, claim.name)).Nodup := by
  induction calls generalizing registry with
  | nil => exact List.nodup_nil
  | cons call rest ih =>
      rw [claims]
      cases hclaim : call.claim? compress registry with
      | none => exact ih _
      | some claim =>
          rw [Option.toList_some, List.singleton_append, List.map_cons, List.nodup_cons]
          refine ⟨fun hmem => ?_, ih _⟩
          obtain ⟨other, hother, hsame⟩ := List.mem_map.1 hmem
          obtain ⟨hpackage, hname⟩ := Prod.mk.inj hsame
          have hfree := isTaken_of_mem_claims hother
          rw [hpackage, hname, ((isTaken_run compress call registry).1 claim hclaim).2] at hfree
          cases hfree

/-!
## Names and claims
-/

/-- A message that has a name after a call had it before, or the call has claimed it. -/
theorem name?_run (hroot : tree.root.Distinct) (hslash : tree.SlashFree)
    (howner : tree.HasSite owner.site) (hsite : ∀ site ∈ call.site?, tree.HasSite site)
    (h : (call.run compress registry).2.name? owner = some name) :
    registry.name? owner = some name ∨
      ∃ claim ∈ call.claim? compress registry, claim.owner = owner ∧ claim.name = name := by
  rcases run_cases compress call registry with
    ⟨_, hsame⟩ | ⟨claim, middle, count, hclaim, habout, _, hsame, hafter, _⟩
  · exact Or.inl ((hsame.names owner).symm.trans h)
  · rw [hafter] at h
    by_cases heq : owner = claim.owner
    · subst heq
      rw [name?_withName_self] at h
      exact Or.inr ⟨claim, hclaim, rfl, Option.some.inj h⟩
    · rw [name?_withName_of_ne hroot hslash (hsite _ habout) howner heq] at h
      exact Or.inl ((hsame.names owner).symm.trans h)

theorem name?_afterCalls (hroot : tree.root.Distinct) (hslash : tree.SlashFree)
    (howner : tree.HasSite owner.site)
    (hsites : ∀ call ∈ calls, ∀ site ∈ call.site?, tree.HasSite site)
    (h : (afterCalls compress calls registry).name? owner = some name) :
    registry.name? owner = some name ∨
      ∃ claim ∈ claims compress calls registry, claim.owner = owner ∧ claim.name = name := by
  induction calls generalizing registry with
  | nil => exact Or.inl h
  | cons call rest ih =>
      rcases ih (fun other ho => hsites other (List.mem_cons_of_mem _ ho)) h with
        hbefore | ⟨claim, hclaim, hsame⟩
      · rcases name?_run hroot hslash howner (hsites call List.mem_cons_self) hbefore with
          hfirst | ⟨claim, hclaim, hsame⟩
        · exact Or.inl hfirst
        · exact Or.inr ⟨claim, List.mem_append_left _ (Option.mem_toList.2 hclaim), hsame⟩
      · exact Or.inr ⟨claim, List.mem_append_right _ hclaim, hsame⟩

/-- The name of a message that a call has asked for is recorded. -/
theorem name?_of_run (howner : owner ∈ call.owner?)
    (hrun : call.run compress registry = (.ok name, middle)) :
    middle.name? owner = some name := by
  cases call with
  | package site => cases howner
  | message site =>
      cases howner
      exact (keptBy_messageName hrun).2
  | keyMessage list listMessage home =>
      cases howner
      exact (keptBy_keyMessageName hrun).2
  | sharedEnum leafPath type => cases howner

theorem inPlace_of_mem_claims {claim : Claim} (h : claim ∈ claims compress calls registry) :
    claim.InPlace compress calls (afterCalls compress calls registry) := by
  induction calls generalizing registry with
  | nil => cases h
  | cons call rest ih =>
      rcases List.mem_append.1 h with h | h
      · rcases run_cases compress call registry with
          ⟨hnone, _⟩ | ⟨found, _, _, hclaim, _, _, _, _, hplace⟩
        · rw [hnone] at h
          cases h
        · rw [hclaim] at h
          obtain rfl := List.mem_singleton.1 h
          exact hplace.mono (by simp) (keptBy_afterCalls compress rest _)
      · exact (ih h).mono (List.subset_cons_self _ _) (.refl _)

end Registry

/-!
## Runs of calls
-/

open Registry in
/-- Calls from a fresh registry, in any order. All of them are answered, and the answers stand
whatever is called later. Nodes have one package exactly if one message holds them, and never a
reserved one. The names claimed in a package are all different, and whatever name a message has was
claimed for it. Shared enums have one name exactly if their types have one identity. -/
theorem Tree.names_of_calls {declared : Node} {tree : Tree}
    (htree : Tree.ofNode declared = .ok tree) (hslash : tree.SlashFree) (compress : Bool)
    (basePackage : String) (reserved : List String) {calls : List Call}
    (hsites : ∀ call ∈ calls, ∀ site ∈ call.site?, tree.HasSite site) :
    let start := fresh basePackage reserved
    let final := afterCalls compress calls start
    (∀ call answer, (call, answer) ∈ answers compress calls start →
      ∃ name, answer = .ok name ∧ ∀ more, call.run compress (afterCalls compress more final) =
        (.ok name, afterCalls compress more final)) ∧
    (∀ site other package package',
      (.package site, .ok package) ∈ answers compress calls start →
      (.package other, .ok package') ∈ answers compress calls start →
      (package = package' ↔ site.holder? compress = other.holder? compress) ∧
        package ∉ reserved) ∧
    ((claims compress calls start).map fun claim => (claim.package, claim.name)).Nodup ∧
    (∀ claim ∈ claims compress calls start, claim.InPlace compress calls final) ∧
    (∀ call name, (call, .ok name) ∈ answers compress calls start → ∀ owner ∈ call.owner?,
      ∃ claim ∈ claims compress calls start, claim.owner = owner ∧ claim.name = name) ∧
    (∀ leafPath type name leafPath' type' name',
      (.sharedEnum leafPath type, .ok name) ∈ answers compress calls start →
      (.sharedEnum leafPath' type', .ok name') ∈ answers compress calls start →
      (type.identity leafPath).ColonFree →
      (name = name' ↔ type.identity leafPath = type'.identity leafPath')) := by
  intro start final
  have hroot := Tree.distinct_root htree
  obtain ⟨hfrozen, hnameless⟩ : start.frozen = false ∧ ∀ owner, start.name? owner = none := by
    simp only [start, fresh, foldl_reserve_eq]
    exact ⟨rfl, fun owner => by cases owner <;> rfl⟩
  have hapart : final.NamesApart reserved :=
    (namesApart_fresh basePackage reserved).afterCalls compress calls
  have hstand : ∀ call name, (call, .ok name) ∈ answers compress calls start →
      call.run compress final = (.ok name, final) := fun _ _ h => run_of_mem_answers h
  refine ⟨fun call answer h => ?_, fun site other package package' h h' => ?_,
    nodup_claims compress calls start, fun claim => inPlace_of_mem_claims,
    fun call name h owner howner => ?_,
    fun leafPath type name leafPath' type' name' h h' hcolon => ?_⟩
  · obtain ⟨name, rfl⟩ := exists_of_mem_answers hfrozen h
    exact ⟨name, rfl, fun more => run_again (hstand call name h)
      (keptBy_afterCalls compress more final)⟩
  · exact hapart.packages.package_eq_iff hroot hslash (hsites _ (mem_of_mem_answers h) site rfl)
      (hsites _ (mem_of_mem_answers h') other rfl)
      (keptBy_packageFor (lift_state_eq_ok (hstand _ _ h))).2
      (keptBy_packageFor (lift_state_eq_ok (hstand _ _ h'))).2
  · have hname := name?_of_run howner (hstand call name h)
    have hsite : tree.HasSite owner.site := by
      refine hsites call (mem_of_mem_answers h) owner.site ?_
      cases call <;> cases howner <;> rfl
    rcases name?_afterCalls hroot hslash hsite hsites hname with hstart | hclaim
    · rw [hnameless] at hstart
      cases hstart
    · exact hclaim
  · exact hapart.enums.name_eq_iff hcolon
      (keptBy_sharedEnumName (lift_state_eq_ok (hstand _ _ h))).2
      (keptBy_sharedEnumName (lift_state_eq_ok (hstand _ _ h'))).2

open Registry in
theorem Tree.names_of_calls_keyed_list :
    let list := Node.list "entry" ["id"] [Node.leaf "id" .string]
    let declared := Node.module "m" [Node.container "a" [list]]
    let tree := Tree.copyOf declared
    let site := (tree.rootSite.below (Node.container "a" [list])).below list
    let calls := [.package site, .message site, .keyMessage site "Entry" "p.a",
      .sharedEnum "/m/x" (.identityref "base" [])]
    let start := fresh "p" ["p.enums"]
    Tree.ofNode declared = .ok tree ∧ tree.SlashFree ∧
      (∀ call ∈ calls, ∀ site ∈ call.site?, tree.HasSite site) ∧
      (claims false calls start).map Claim.name = ["Entry", "EntryKey"] ∧
      ((claims false calls start).map fun claim => (claim.package, claim.name)).Nodup := by
  intro list declared tree site calls start
  have htree : Tree.ofNode declared = .ok tree :=
    Tree.ofNode_eq rfl (by decide +kernel)
  have hslash : tree.SlashFree := Tree.slashFree_of_sites (by decide +kernel)
  have hsite : tree.HasSite site :=
    (Site.Under.self.step List.mem_cons_self).step List.mem_cons_self
  have hsites : ∀ call ∈ calls, ∀ site ∈ call.site?, tree.HasSite site := by
    simp [calls, Call.site?, hsite]
  have hnames := Tree.names_of_calls htree hslash false "p" ["p.enums"] hsites
  exact ⟨htree, hslash, hsites, by decide +kernel, hnames.2.2.1⟩

end YangToProto

import YangToProto.Generation.EnumValues
import YangToProto.Proofs.Collection.Entries

/-!
# Numbers of identities

Identities are put in order of their symbols, each name once, and then numbered from 1. In the order
of symbols two identities of one symbol stand side by side, so if no two neighbours collide the
symbols are strictly increasing (`IdentityBase.increasing_of_collision?_eq_none`), and the table
holds each of them once behind the entry of 0 (`IdentityBase.perm_enumValues`).
-/

namespace YangToProto

namespace IdentityBase

open Std

/-- Pairs in the order of their symbols, those of one symbol in the order of their names. -/
def pairOrder : String × String → String × String → Ordering :=
  compareLex (compareOn Prod.fst) (compareOn Prod.snd)

instance : TransCmp pairOrder :=
  inferInstanceAs (TransCmp (compareLex (compareOn Prod.fst) (compareOn Prod.snd)))

/-- No pair stands before a smaller one. -/
def Ordered (pairs : List (String × String)) : Prop :=
  pairs.Pairwise fun one other => (pairOrder one other).isLE = true

variable {pair : String × String} {pairs : List (String × String)}

theorem placePair_cons (pair other : String × String) (rest : List (String × String)) :
    placePair pair (other :: rest) =
      if (pairOrder pair other).isLE then pair :: other :: rest
      else other :: placePair pair rest := by
  have horder : (compare pair.1 other.1).then (compare pair.2 other.2) = pairOrder pair other :=
    rfl
  rw [placePair, horder]
  cases pairOrder pair other <;> rfl

theorem perm_placePair (pair : String × String) (pairs : List (String × String)) :
    (placePair pair pairs).Perm (pair :: pairs) := by
  induction pairs with
  | nil => exact List.Perm.refl _
  | cons other rest ih =>
      rw [placePair_cons]
      split
      · exact List.Perm.refl _
      · exact (ih.cons other).trans (List.Perm.swap pair other rest)

theorem Ordered.placePair (h : Ordered pairs) (pair : String × String) :
    Ordered (placePair pair pairs) := by
  induction pairs with
  | nil => exact List.pairwise_singleton _ _
  | cons other rest ih =>
      obtain ⟨hother, hrest⟩ := List.pairwise_cons.1 h
      rw [placePair_cons]
      split
      · rename_i hle
        refine List.pairwise_cons.2 ⟨fun later hlater => ?_, h⟩
        rcases List.mem_cons.1 hlater with rfl | hlater
        · exact hle
        · exact TransCmp.isLE_trans hle (hother later hlater)
      · rename_i hgt
        have hle : (pairOrder other pair).isLE = true := by
          rw [← OrientedCmp.isGE_eq_isLE]
          cases hcmp : pairOrder pair other <;> simp_all
        refine List.pairwise_cons.2 ⟨fun later hlater => ?_, ih hrest⟩
        rcases List.mem_cons.1 ((perm_placePair pair rest).mem_iff.1 hlater) with rfl | hlater
        · exact hle
        · exact hother later hlater

theorem perm_foldr_placePair (pairs : List (String × String)) :
    (pairs.foldr placePair []).Perm pairs := by
  induction pairs with
  | nil => exact List.Perm.refl _
  | cons pair rest ih => exact (perm_placePair pair _).trans (ih.cons pair)

theorem ordered_foldr_placePair (pairs : List (String × String)) :
    Ordered (pairs.foldr placePair []) := by
  induction pairs with
  | nil => exact List.Pairwise.nil
  | cons pair rest ih => exact ih.placePair pair

/-!
## Names that are repeated
-/

theorem sublist_dropRepeated (pairs : List (String × String)) :
    (dropRepeated pairs).Sublist pairs := by
  fun_induction dropRepeated pairs with
  | case1 => exact List.Sublist.refl _
  | case2 pair => exact List.Sublist.refl _
  | case3 first second rest _ ih =>
      exact ih.trans ((List.sublist_cons_self second rest).cons_cons first)
  | case4 first second rest _ ih => exact ih.cons_cons first

/-- No name is lost. -/
theorem mem_names_dropRepeated_iff {name : String} :
    name ∈ (dropRepeated pairs).map Prod.snd ↔ name ∈ pairs.map Prod.snd := by
  fun_induction dropRepeated pairs with
  | case1 => exact Iff.rfl
  | case2 => exact Iff.rfl
  | case3 first second rest hsame ih =>
      rw [ih, List.map_cons, List.map_cons, List.map_cons, ← eq_of_beq hsame]
      simp
  | case4 first second rest _ ih =>
      rw [List.map_cons, List.mem_cons, ih, List.map_cons (l := second :: rest), List.mem_cons]

/-- The pairs are those of an identity and its symbol. -/
theorem mem_symbols_iff {base : IdentityBase} :
    pair ∈ base.symbols ↔ pair.2 ∈ base.values ∧ pair.1 = Identifier.sanitize pair.2 := by
  have hpair : ∀ {pair : String × String},
      pair ∈ (base.values.map fun name => (Identifier.sanitize name, name)).foldr placePair [] ↔
        pair.2 ∈ base.values ∧ pair.1 = Identifier.sanitize pair.2 := by
    intro pair
    rw [(perm_foldr_placePair _).mem_iff, List.mem_map]
    constructor
    · rintro ⟨name, hname, rfl⟩
      exact ⟨hname, rfl⟩
    · rintro ⟨hname, hsymbol⟩
      exact ⟨pair.2, hname, Prod.ext hsymbol.symm rfl⟩
  constructor
  · intro h
    exact hpair.1 ((sublist_dropRepeated _).subset h)
  · intro h
    obtain ⟨kept, hkept, hname⟩ := List.mem_map.1
      (mem_names_dropRepeated_iff.2 (List.mem_map_of_mem (f := Prod.snd) (hpair.2 h)))
    obtain ⟨_, hsymbol⟩ := hpair.1 ((sublist_dropRepeated _).subset hkept)
    have hsame : kept = pair := by
      refine Prod.ext ?_ hname
      rw [hsymbol, hname, h.2]
    exact hsame ▸ hkept

theorem ordered_symbols (base : IdentityBase) : Ordered base.symbols :=
  (ordered_foldr_placePair _).sublist (sublist_dropRepeated _)

/-- If no neighbours among ordered pairs have one symbol, no two pairs have. -/
theorem increasing_of_collision?_eq_none (h : Ordered pairs) (hnone : collision? pairs = none) :
    (pairs.map Prod.fst).Pairwise fun one other => compare one other = .lt := by
  fun_induction collision? pairs with
  | case1 => exact List.Pairwise.nil
  | case2 pair => exact List.pairwise_singleton _ _
  | case3 => cases hnone
  | case4 first second rest hdiffer ih =>
      obtain ⟨hfirst, hrest⟩ := List.pairwise_cons.1 h
      have hlater := ih hrest hnone
      have hlt : compare first.1 second.1 = .lt := by
        rcases Ordering.isLE_then_iff_or.1 (hfirst second List.mem_cons_self) with hlt | ⟨heq, _⟩
        · exact hlt
        · have hsame : first.1 = second.1 := LawfulEqOrd.eq_of_compare heq
          exact absurd (beq_iff_eq.2 hsame) hdiffer
      rw [List.map_cons, List.pairwise_cons]
      refine ⟨fun symbol hsymbol => ?_, hlater⟩
      rw [List.map_cons, List.mem_cons] at hsymbol
      rcases hsymbol with rfl | hsymbol
      · exact hlt
      · exact TransCmp.lt_trans hlt ((List.pairwise_cons.1 hlater).1 symbol hsymbol)

/-!
## The table
-/

/-- Symbols with consecutive numbers from a start. -/
def numberedFrom (start : Int) : List String → List (Int × String)
  | [] => []
  | symbol :: rest => (start, symbol) :: numberedFrom (start + 1) rest

@[simp] theorem map_snd_numberedFrom (start : Int) (symbols : List String) :
    (numberedFrom start symbols).map Prod.snd = symbols := by
  induction symbols generalizing start with
  | nil => rfl
  | cons symbol rest ih => rw [numberedFrom, List.map_cons, ih]

theorem le_of_mem_numberedFrom {start : Int} {symbols : List String} {entry : Int × String}
    (h : entry ∈ numberedFrom start symbols) : start ≤ entry.1 := by
  induction symbols generalizing start with
  | nil => cases h
  | cons symbol rest ih =>
      rcases List.mem_cons.1 h with rfl | h
      · exact Int.le_refl _
      · have hlater := ih h
        omega

/-- Numbers from a start on are new to a table of smaller numbers. -/
theorem perm_number {table : EnumTable} {start : Int}
    (hbelow : ∀ entry ∈ table.entries, entry.1 < start) (symbols : List String) :
    (number table start symbols).entries.Perm (numberedFrom start symbols ++ table.entries) := by
  induction symbols generalizing table start with
  | nil => exact List.Perm.refl _
  | cons symbol rest ih =>
      have hfree : table.find? start = none := by
        cases hfind : table.find? start with
        | none => rfl
        | some taken =>
            have hlt := hbelow _ ((SortedMap.mem_entries_iff _ _ _).2 hfind)
            exact absurd hlt (Int.lt_irrefl _)
      have hentries := SortedMap.perm_insert hfree symbol
      have hbelow' : ∀ entry ∈ (table.insert start symbol).entries, entry.1 < start + 1 := by
        intro entry hentry
        rcases List.mem_cons.1 (hentries.mem_iff.1 hentry) with rfl | hold
        · exact Int.lt_succ start
        · have hlt := hbelow entry hold
          omega
      refine (ih hbelow').trans ((hentries.append_left _).trans ?_)
      exact List.perm_middle

/-- The table of an identity base has the entry of 0 and then the symbols in increasing order. -/
theorem perm_enumValues {base : IdentityBase} {table : EnumTable}
    (h : base.enumValues = .ok table) :
    (base.symbols.map Prod.fst).Pairwise (fun one other => compare one other = .lt) ∧
      table.entries.Perm
        ((0, unsetSymbol) :: numberedFrom 1 (base.symbols.map Prod.fst)) := by
  rw [enumValues] at h
  split at h
  · cases h
  · rename_i hnone
    cases h
    refine ⟨increasing_of_collision?_eq_none (ordered_symbols base) hnone, ?_⟩
    refine (perm_number ?_ _).trans (List.perm_append_singleton _ _)
    intro entry hentry
    rw [List.mem_singleton.1 hentry]
    decide

end IdentityBase

end YangToProto

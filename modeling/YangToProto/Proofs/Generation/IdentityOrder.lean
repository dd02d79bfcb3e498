import Mathlib.Data.List.Sort
import Mathlib.Data.Set.Operations
import YangToProto.Proofs.Generation.IdentityNumbers

/-!
# Which identities collide

The values of an identity base depend on the set of its identities alone. In the order of symbols
each name stands once, so the order is strict (`IdentityBase.strict_symbols`), and a list in strict
order is determined by what it holds. Whatever stands between two identities of one symbol has that
symbol too, so that it is enough to compare neighbours, and the first neighbours that collide are
the least ones (`IdentityBase.of_collision?_eq_some`). `IdentityBase.values_of_identities` puts this
together.
-/

namespace YangToProto

namespace IdentityBase

open Std Identifier

variable {one other first second : String × String} {pairs : List (String × String)}
  {base : IdentityBase}

/-- Pairs in the order of their symbols, each once. -/
def Strict (pairs : List (String × String)) : Prop :=
  pairs.Pairwise fun one other => pairOrder one other = .lt

theorem eq_of_pairOrder_eq_eq (h : pairOrder one other = .eq) : one = other := by
  rw [pairOrder, compareLex_eq_eq] at h
  exact Prod.ext (LawfulEqOrd.eq_of_compare h.1) (LawfulEqOrd.eq_of_compare h.2)

theorem pairOrder_eq_lt_of_ne (h : (pairOrder one other).isLE = true) (hne : one ≠ other) :
    pairOrder one other = .lt := by
  rcases Ordering.isLE_iff_eq_lt_or_eq_eq.1 h with hlt | heq
  · exact hlt
  · exact absurd (eq_of_pairOrder_eq_eq heq) hne

theorem pairOrder_irrefl : pairOrder one one ≠ .lt := by
  have hself : pairOrder one one = .eq := ReflCmp.compare_self
  rw [hself]
  exact Ordering.noConfusion

theorem pairOrder_asymm (h : pairOrder one other = .lt) : pairOrder other one ≠ .lt := fun h' =>
  pairOrder_irrefl (TransCmp.lt_trans h h')

theorem isLE_compare_symbols (h : pairOrder one other = .lt) :
    (compare one.1 other.1).isLE = true :=
  (Ordering.isLE_then_iff_or.1 (Ordering.isLE_of_eq_lt h)).elim Ordering.isLE_of_eq_lt
    fun heq => Ordering.isLE_of_eq_eq heq.1

/-!
## Each name once
-/

/-- Neighbours that are dropped are equal, so among ordered pairs those that are left increase. -/
theorem strict_dropRepeated (h : Ordered pairs) : Strict (dropRepeated pairs) := by
  fun_induction dropRepeated pairs with
  | case1 => exact List.Pairwise.nil
  | case2 pair => exact List.pairwise_singleton _ _
  | case3 first second rest _ ih =>
      exact ih (h.sublist ((List.sublist_cons_self second rest).cons_cons first))
  | case4 first second rest hdiffer ih =>
      obtain ⟨hfirst, hrest⟩ := List.pairwise_cons.1 h
      have hne : first ≠ second := fun heq => hdiffer (beq_iff_eq.2 (congrArg Prod.snd heq))
      have hlt := pairOrder_eq_lt_of_ne (hfirst second List.mem_cons_self) hne
      refine List.pairwise_cons.2 ⟨fun later hlater => ?_, ih hrest⟩
      rcases List.mem_cons.1 ((sublist_dropRepeated _).subset hlater) with rfl | hlater
      · exact hlt
      · exact TransCmp.lt_of_lt_of_isLE hlt ((List.pairwise_cons.1 hrest).1 later hlater)

theorem strict_symbols (base : IdentityBase) : Strict base.symbols :=
  strict_dropRepeated (ordered_foldr_placePair _)

/-- Bases with the same identities have the same symbols. -/
theorem symbols_eq_of_mem_iff {other : IdentityBase}
    (h : ∀ name, name ∈ other.values ↔ name ∈ base.values) : other.symbols = base.symbols := by
  have hantisymm : Antisymm fun one other => pairOrder one other = .lt :=
    ⟨fun _ _ hlt hgt => absurd hgt (pairOrder_asymm hlt)⟩
  have hirrefl : Irrefl fun one other => pairOrder one other = .lt := ⟨fun _ => pairOrder_irrefl⟩
  refine List.Pairwise.eq_of_mem_iff (strict_symbols other) (strict_symbols base) fun pair => ?_
  rw [mem_symbols_iff, mem_symbols_iff, h]

/-!
## Neighbours with one symbol
-/

/-- Neighbours are enough: no pair in front of the first neighbours that collide has the symbol of a
later one. -/
theorem of_collision?_eq_some (h : Strict pairs) (hsome : collision? pairs = some (first, second)) :
    first.1 = second.1 ∧ ∃ front back, pairs = front ++ first :: second :: back ∧
      ∀ one ∈ front, ∀ other ∈ pairs, pairOrder one other = .lt → one.1 ≠ other.1 := by
  fun_induction collision? pairs with
  | case1 => cases hsome
  | case2 => cases hsome
  | case3 one other rest hsame =>
      cases hsome
      exact ⟨eq_of_beq hsame, [], rest, rfl, fun _ hmem => absurd hmem List.not_mem_nil⟩
  | case4 head next rest hdiffer ih =>
      obtain ⟨hhead, hrest⟩ := List.pairwise_cons.1 h
      obtain ⟨hsame, front, back, hsplit, hfront⟩ := ih hrest hsome
      refine ⟨hsame, head :: front, back, by rw [hsplit]; rfl, fun one hone other hother hlt => ?_⟩
      have hbehind : other ≠ head → other ∈ next :: rest :=
        (List.mem_cons.1 hother).resolve_left
      rcases List.mem_cons.1 hone with rfl | hone
      · -- the symbol of the next pair lies between that of the head and that of any later one
        have hother := hbehind fun heq => pairOrder_irrefl (heq ▸ hlt)
        intro hsymbol
        have hnext := isLE_compare_symbols (hhead next List.mem_cons_self)
        have hlater : (compare next.1 other.1).isLE = true := by
          rcases List.mem_cons.1 hother with rfl | hother
          · rw [compare_self]
            rfl
          · exact isLE_compare_symbols ((List.pairwise_cons.1 hrest).1 other hother)
        rw [← hsymbol] at hlater
        have hequal := LawfulEqOrd.eq_of_compare (OrientedCmp.isLE_antisymm hnext hlater)
        exact hdiffer (beq_iff_eq.2 hequal)
      · refine hfront one hone other (hbehind fun heq => ?_) hlt
        have hbefore := hhead one (hsplit ▸ List.mem_append_left _ hone)
        exact pairOrder_asymm hbefore (heq ▸ hlt)

/-- The identity comes before another one: its symbol does, or they have one symbol and its name
does. -/
def Before (one other : String) : Prop :=
  pairOrder (sanitize one, one) (sanitize other, other) = .lt

/-- Identities of one symbol are in the order of their names. -/
theorem before_iff_of_same {one other : String} (h : sanitize one = sanitize other) :
    Before one other ↔ one < other := by
  have hnames : pairOrder (sanitize one, one) (sanitize other, other) = compare one other := by
    rw [pairOrder, compareLex, compareOn, h, compare_self]
    rfl
  rw [Before, hnames]
  exact compareOfLessAndEq_eq_lt

/-- Two identities of the base, the first before the second, with none between them. -/
structure Adjacent (base : IdentityBase) (one other : String) : Prop where
  left : one ∈ base.values
  right : other ∈ base.values
  before : Before one other
  nothing_between : ∀ name ∈ base.values, ¬ (Before one name ∧ Before name other)

theorem mem_symbols_of_mem {name : String} (h : name ∈ base.values) :
    (sanitize name, name) ∈ base.symbols := mem_symbols_iff.2 ⟨h, rfl⟩

theorem eq_of_mem_symbols (h : one ∈ base.symbols) : one = (sanitize one.2, one.2) :=
  Prod.ext (mem_symbols_iff.1 h).2 rfl

/-- Neighbours in the order of symbols have no identity between them. -/
theorem adjacent_of_symbols_eq {front back : List (String × String)}
    (h : base.symbols = front ++ first :: second :: back) : base.Adjacent first.2 second.2 := by
  have hstrict := strict_symbols base
  rw [h, Strict, List.pairwise_append] at hstrict
  obtain ⟨_, hbehind, hacross⟩ := hstrict
  obtain ⟨hfirst, hsecond⟩ := List.pairwise_cons.1 hbehind
  have hleft : first ∈ base.symbols := by simp [h]
  have hright : second ∈ base.symbols := by simp [h]
  refine ⟨(mem_symbols_iff.1 hleft).1, (mem_symbols_iff.1 hright).1, ?_, ?_⟩
  · rw [Before, ← eq_of_mem_symbols hleft, ← eq_of_mem_symbols hright]
    exact hfirst second List.mem_cons_self
  · rintro name hname ⟨hafter, hbefore⟩
    rw [Before, ← eq_of_mem_symbols hleft] at hafter
    rw [Before, ← eq_of_mem_symbols hright] at hbefore
    have hmem := mem_symbols_of_mem hname
    rw [h, List.mem_append] at hmem
    rcases hmem with hmem | hmem
    · exact pairOrder_asymm hafter (hacross _ hmem first List.mem_cons_self)
    rcases List.mem_cons.1 hmem with heq | hmem
    · exact pairOrder_irrefl (heq ▸ hafter)
    rcases List.mem_cons.1 hmem with heq | hmem
    · exact pairOrder_irrefl (heq ▸ hbefore)
    · exact pairOrder_asymm hbefore ((List.pairwise_cons.1 hsecond).1 _ hmem)

/-- The second of adjacent identities follows from the first. -/
theorem Adjacent.right_unique {name next other : String} (h : base.Adjacent name next)
    (h' : base.Adjacent name other) : other = next := by
  by_contra hne
  have hpairs : (sanitize other, other) ≠ (sanitize next, next) := fun heq =>
    hne (congrArg Prod.snd heq)
  cases hcmp : pairOrder (sanitize other, other) (sanitize next, next) with
  | lt => exact h.nothing_between other h'.right ⟨h'.before, hcmp⟩
  | eq => exact hpairs (eq_of_pairOrder_eq_eq hcmp)
  | gt => exact h'.nothing_between next h.right ⟨h.before, OrientedCmp.lt_of_gt hcmp⟩

/-- The first neighbours with one symbol are the least adjacent identities that collide. -/
theorem least_of_collision?_eq_some (h : collision? base.symbols = some (first, second)) :
    base.Adjacent first.2 second.2 ∧ sanitize first.2 = sanitize second.2 ∧
      first.1 = sanitize first.2 ∧
      ∀ one other, base.Adjacent one other → sanitize one = sanitize other →
        (one = first.2 ∧ other = second.2) ∨ Before first.2 one := by
  have hstrict := strict_symbols base
  obtain ⟨hsame, front, back, hsplit, hfront⟩ := of_collision?_eq_some hstrict h
  have hadjacent := adjacent_of_symbols_eq hsplit
  have hfirst : first ∈ base.symbols := by simp [hsplit]
  have hsecond : second ∈ base.symbols := by simp [hsplit]
  have hsymbol := (mem_symbols_iff.1 hfirst).2
  refine ⟨hadjacent, ?_, hsymbol, fun one other hcollide hequal => ?_⟩
  · rw [← hsymbol, hsame, (mem_symbols_iff.1 hsecond).2]
  have hone := mem_symbols_of_mem hcollide.left
  rw [hsplit, List.mem_append] at hone
  rcases hone with hone | hone
  · have hother := mem_symbols_of_mem hcollide.right
    exact absurd hequal (hfront _ hone _ hother hcollide.before)
  rcases List.mem_cons.1 hone with heq | hone
  · obtain rfl : one = first.2 := congrArg Prod.snd heq
    exact Or.inl ⟨rfl, hadjacent.right_unique hcollide⟩
  · rw [hsplit, Strict, List.pairwise_append] at hstrict
    refine Or.inr ?_
    rw [Before, ← eq_of_mem_symbols hfirst]
    exact (List.pairwise_cons.1 hstrict.2.1).1 _ hone

/-!
## Values
-/

theorem enumValues_eq_ok_iff :
    (∃ table, base.enumValues = .ok table) ↔ collision? base.symbols = none := by
  rw [enumValues]
  cases collision? base.symbols with
  | none => simp
  | some found => simp

/-- Neighbours are compared, but any two identities of one symbol are found. -/
theorem collision?_eq_none_iff :
    collision? base.symbols = none ↔ Set.InjOn sanitize {name | name ∈ base.values} := by
  constructor
  · intro hnone one hone other hother hsame
    have hincreasing := increasing_of_collision?_eq_none (ordered_symbols base) hnone
    have hnodup : (base.symbols.map Prod.fst).Nodup := hincreasing.imp fun hlt heq => by
      rw [heq, compare_self] at hlt
      cases hlt
    exact congrArg Prod.snd (List.inj_on_of_nodup_map hnodup (mem_symbols_of_mem hone)
      (mem_symbols_of_mem hother) hsame)
  · intro hinjective
    cases hsome : collision? base.symbols with
    | none => rfl
    | some found =>
        obtain ⟨hadjacent, hsame, _⟩ := least_of_collision?_eq_some hsome
        have heq := hinjective hadjacent.left hadjacent.right hsame
        exact absurd (heq ▸ hadjacent.before) pairOrder_irrefl

/-- Numbers of increasing symbols increase. -/
theorem increasing_numberedFrom (start : Int) (symbols : List String) :
    (numberedFrom start symbols).Pairwise fun one other => compare one.1 other.1 = .lt := by
  induction symbols generalizing start with
  | nil => exact List.Pairwise.nil
  | cons symbol rest ih =>
      refine List.pairwise_cons.2 ⟨fun entry hentry => ?_, ih (start + 1)⟩
      have hle := le_of_mem_numberedFrom hentry
      exact compareOfLessAndEq_eq_lt.2 (show start < entry.1 by omega)

/-- The entries of the table, in order. -/
theorem entries_enumValues {table : EnumTable} (h : base.enumValues = .ok table) :
    table.entries = (0, unsetSymbol) :: numberedFrom 1 (base.symbols.map Prod.fst) := by
  have hnumbers : ((0, unsetSymbol) :: numberedFrom 1 (base.symbols.map Prod.fst)).Pairwise
      fun one other => compare one.1 other.1 = .lt :=
    increasing_numberedFrom 0 (unsetSymbol :: base.symbols.map Prod.fst)
  refine List.Perm.eq_of_pairwise (fun one other _ _ hlt hgt => ?_) table.increasing hnumbers
    (perm_enumValues h).2
  exact absurd (TransCmp.lt_trans hlt hgt) (by rw [compare_self]; exact Ordering.noConfusion)

/-!
## Bases as sets of identities
-/

/-- The values of a base are a function of its name and the set of its identities. There are values
exactly if the symbols of different identities differ, and then the symbols have the numbers from 1
on in increasing order. Otherwise the error names the least adjacent identities that share their
symbol. -/
theorem values_of_identities (base : IdentityBase) :
    (∀ other : IdentityBase, other.name = base.name →
      (∀ name, name ∈ other.values ↔ name ∈ base.values) → other.enumValues = base.enumValues) ∧
    ((∃ table, base.enumValues = .ok table) ↔ Set.InjOn sanitize {name | name ∈ base.values}) ∧
    (∀ table, base.enumValues = .ok table →
      ∃ symbols : List String, symbols.Pairwise (· < ·) ∧
        (∀ symbol, symbol ∈ symbols ↔ ∃ name ∈ base.values, sanitize name = symbol) ∧
        table.entries = (0, unsetSymbol) :: numberedFrom 1 symbols) ∧
    ∀ error, base.enumValues = .error error →
      ∃ first second, error = .identityCollision base.name first second (sanitize first) ∧
        first < second ∧ sanitize first = sanitize second ∧ base.Adjacent first second ∧
        ∀ one other, base.Adjacent one other → sanitize one = sanitize other →
          (one = first ∧ other = second) ∨ Before first one := by
  refine ⟨fun other hname hvalues => ?_, ?_, fun table htable => ?_, fun error herror => ?_⟩
  · rw [enumValues, enumValues, symbols_eq_of_mem_iff hvalues, hname]
  · rw [enumValues_eq_ok_iff, collision?_eq_none_iff]
  · refine ⟨base.symbols.map Prod.fst, ?_, fun symbol => ?_, entries_enumValues htable⟩
    · exact (perm_enumValues htable).1.imp fun hlt => compareOfLessAndEq_eq_lt.1 hlt
    · rw [List.mem_map]
      constructor
      · rintro ⟨pair, hpair, rfl⟩
        exact ⟨pair.2, (mem_symbols_iff.1 hpair).1, (mem_symbols_iff.1 hpair).2.symm⟩
      · rintro ⟨name, hname, rfl⟩
        exact ⟨_, mem_symbols_of_mem hname, rfl⟩
  · rw [enumValues] at herror
    cases hcollision : collision? base.symbols with
    | none =>
        rw [hcollision] at herror
        cases herror
    | some found =>
        obtain ⟨first, second⟩ := found
        rw [hcollision] at herror
        cases herror
        obtain ⟨hadjacent, hsame, hsymbol, hleast⟩ := least_of_collision?_eq_some hcollision
        have hlt : first.2 < second.2 := (before_iff_of_same hsame).1 hadjacent.before
        exact ⟨first.2, second.2, by rw [hsymbol], hlt, hsame, hadjacent, hleast⟩

/-- Identities in another order and repeated have the same values. Identities that share a symbol
have none, and the error names two of them in order. -/
theorem values_of_identities_repeated_and_colliding :
    (IdentityBase.mk "b" none ["y", "x", "y"]).enumValues =
      (IdentityBase.mk "b" none ["x", "y"]).enumValues ∧
    (∃ table, (IdentityBase.mk "b" none ["x", "y"]).enumValues = .ok table) ∧
    ∃ first second, first < second ∧ (IdentityBase.mk "c" none ["p_q", "p.q"]).enumValues =
        .error (.identityCollision "c" first second (sanitize first)) := by
  obtain ⟨hset, hiff, _⟩ := values_of_identities ⟨"b", none, ["x", "y"]⟩
  obtain ⟨_, hiff', _, hcollision⟩ := values_of_identities ⟨"c", none, ["p_q", "p.q"]⟩
  refine ⟨hset ⟨"b", none, ["y", "x", "y"]⟩ rfl fun name => ?_, hiff.2 ?_, ?_⟩
  · simp only [List.mem_cons, List.not_mem_nil, or_false]
    grind
  · have hdiffer : sanitize "x" ≠ sanitize "y" := by decide +kernel
    rintro one hone other hother hsame
    simp only [Set.mem_ofPred_eq, List.mem_cons, List.not_mem_nil, or_false] at hone hother
    rcases hone with rfl | rfl <;> rcases hother with rfl | rfl
    · rfl
    · exact absurd hsame hdiffer
    · exact absurd hsame.symm hdiffer
    · rfl
  · cases hvalues : (IdentityBase.mk "c" none ["p_q", "p.q"]).enumValues with
    | ok table =>
        have hinjective := hiff'.1 ⟨table, hvalues⟩
        have hsame : sanitize "p_q" = sanitize "p.q" := by decide +kernel
        exact absurd (hinjective (by simp) (by simp) hsame) (by decide)
    | error error =>
        obtain ⟨first, second, rfl, hlt, _⟩ := hcollision error hvalues
        exact ⟨first, second, hlt, rfl⟩

end IdentityBase

end YangToProto

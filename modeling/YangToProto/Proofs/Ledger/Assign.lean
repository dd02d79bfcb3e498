import YangToProto.Generation.Ledger

/-!
# What an assignment of tags keeps

`FieldTags.assign` walks along the fields of a message with a running maximum. As long as the
maximum bounds every recorded tag (`FieldTags.Bounded`), a new tag differs from all of them, so
distinctness (`FieldTags.Sound`) is kept, and a walk only adds tags above the ones that were there
(`FieldTags.Extends`). Both hold whether or not the walk runs out of tags on its way. The ledger
inherits them message by message.
-/

namespace YangToProto

open Std

namespace Tag

/-- Tags that a field may have: positive, of at most 29 bits, outside the reserved range. -/
def Legal (tag : UInt32) : Prop :=
  1 ≤ tag.toNat ∧ tag.toNat ≤ maximum ∧ ¬ (reservedStart ≤ tag.toNat ∧ tag.toNat ≤ reservedEnd)

/-- The next tag is the successor of the highest one unless that is reserved. -/
theorem toNat_of_next? {highest tag : UInt32} (h : next? highest = some tag) :
    tag.toNat ≤ maximum ∧ ((tag.toNat = highest.toNat + 1 ∧
      ¬ (reservedStart ≤ tag.toNat ∧ tag.toNat ≤ reservedEnd)) ∨
        (highest.toNat < reservedEnd ∧ tag.toNat = reservedEnd + 1)) := by
  simp only [next?] at h
  by_cases hres : reservedStart ≤ highest.toNat + 1 ∧ highest.toNat + 1 ≤ reservedEnd
  · rw [if_pos hres, if_pos (by decide)] at h
    cases h
    exact ⟨by decide, Or.inr ⟨hres.2, rfl⟩⟩
  · rw [if_neg hres] at h
    split at h
    · rename_i hmax
      cases h
      have hnat : (UInt32.ofNat (highest.toNat + 1)).toNat = highest.toNat + 1 := by
        rw [UInt32.toNat_ofNat', Nat.mod_eq_of_lt]
        simp only [maximum] at hmax
        omega
      rw [hnat]
      exact ⟨hmax, Or.inl ⟨rfl, hres⟩⟩
    · exact absurd h (by simp)

theorem lt_of_next? {highest tag : UInt32} (h : next? highest = some tag) : highest < tag := by
  have hnat := toNat_of_next? h
  simp only [reservedEnd] at hnat
  rw [UInt32.lt_iff_toNat_lt]
  omega

theorem legal_of_next? {highest tag : UInt32} (h : next? highest = some tag) : Legal tag := by
  have hnat := toNat_of_next? h
  simp only [Legal, maximum, reservedStart, reservedEnd] at hnat ⊢
  omega

end Tag

namespace FieldTags

/-- Legal tags, and different ones for different fields. -/
structure Sound (known : FieldTags) : Prop where
  legal : ∀ {field tag}, known.find? field = some tag → Tag.Legal tag
  distinct : ∀ {field other tag}, known.find? field = some tag →
    known.find? other = some tag → field = other

/-- Every recorded tag is at most `highest`. -/
def Bounded (known : FieldTags) (highest : UInt32) : Prop :=
  ∀ field tag, known.find? field = some tag → tag ≤ highest

/-- Later tags of a message: those recorded earlier are kept, and every other one lies above all
of them. -/
structure Extends (earlier later : FieldTags) : Prop where
  kept : ∀ {field tag}, earlier.find? field = some tag → later.find? field = some tag
  above : ∀ {field tag}, earlier.find? field = none → later.find? field = some tag →
    ∀ other used, earlier.find? other = some used → used < tag

theorem Sound.empty : Sound (∅ : FieldTags) where
  legal h := absurd h (by simp [EmptyCollection.emptyCollection])
  distinct h := absurd h (by simp [EmptyCollection.emptyCollection])

theorem Extends.refl (known : FieldTags) : Extends known known where
  kept h := h
  above h h' := absurd h' (by simp [h])

theorem Extends.trans {first second third : FieldTags} (h : Extends first second)
    (h' : Extends second third) : Extends first third where
  kept hf := h'.kept (h.kept hf)
  above {field tag} hnone hsome other used hused := by
    cases hmid : second.find? field with
    | none => exact h'.above hmid hsome other used (h.kept hused)
    | some old =>
        have hold : old = tag := Option.some.inj ((h'.kept hmid).symm.trans hsome)
        exact hold ▸ h.above hnone hmid other used hused

theorem le_foldl_max (tags : List UInt32) (start : UInt32) :
    start ≤ tags.foldl max start ∧ ∀ tag ∈ tags, tag ≤ tags.foldl max start := by
  induction tags generalizing start with
  | nil => simp
  | cons head tail ih =>
      obtain ⟨hstart, htail⟩ := ih (max start head)
      have hmax : start ≤ max start head ∧ head ≤ max start head := by
        change start ≤ (if start ≤ head then head else start) ∧
          head ≤ (if start ≤ head then head else start)
        by_cases hle : start ≤ head
        · rw [if_pos hle]
          exact ⟨hle, UInt32.le_refl head⟩
        · rw [if_neg hle]
          exact ⟨UInt32.le_refl start, UInt32.le_of_lt (UInt32.not_le.1 hle)⟩
      rw [List.foldl_cons]
      refine ⟨UInt32.le_trans hmax.1 hstart, fun tag htag => ?_⟩
      rcases List.mem_cons.1 htag with rfl | htag
      · exact UInt32.le_trans hmax.2 hstart
      · exact htail tag htag

theorem bounded_highest (known : FieldTags) : Bounded known known.highest := by
  intro field tag h
  have hmem : tag ∈ known.values :=
    List.mem_map.2 ⟨(field, tag), (known.mem_entries_iff field tag).2 h, rfl⟩
  exact (le_foldl_max known.values 0).2 tag hmem

/-- The bound moves up with a new tag. -/
theorem Bounded.insert {known : FieldTags} {highest tag : UInt32} (hb : Bounded known highest)
    (ht : Tag.next? highest = some tag) (field : String) :
    Bounded (known.insert field tag) tag := by
  intro other used h
  rw [SortedMap.find?_insert] at h
  split at h
  · exact UInt32.le_of_eq (Option.some.inj h).symm
  · exact UInt32.le_trans (hb other used h) (UInt32.le_of_lt (Tag.lt_of_next? ht))

theorem Bounded.lt_next {known : FieldTags} {highest tag : UInt32} (hb : Bounded known highest)
    (ht : Tag.next? highest = some tag) {field : String} {used : UInt32}
    (h : known.find? field = some used) : used < tag :=
  UInt32.lt_of_le_of_lt (hb field used h) (Tag.lt_of_next? ht)

theorem Sound.insert {known : FieldTags} {highest tag : UInt32} (hs : Sound known)
    (hb : Bounded known highest) (ht : Tag.next? highest = some tag) (field : String) :
    Sound (known.insert field tag) where
  legal {other used} h := by
    rw [SortedMap.find?_insert] at h
    split at h
    · exact Option.some.inj h ▸ Tag.legal_of_next? ht
    · exact hs.legal h
  distinct {one other used} h h' := by
    rw [SortedMap.find?_insert] at h h'
    split at h <;> split at h'
    · simp_all
    · have hlt := hb.lt_next ht h'
      rw [Option.some.inj h] at hlt
      exact absurd hlt (UInt32.lt_irrefl used)
    · have hlt := hb.lt_next ht h
      rw [Option.some.inj h'] at hlt
      exact absurd hlt (UInt32.lt_irrefl used)
    · exact hs.distinct h h'

theorem Extends.insert {known : FieldTags} {highest tag : UInt32} (hb : Bounded known highest)
    (ht : Tag.next? highest = some tag) {field : String} (hnew : known.find? field = none) :
    Extends known (known.insert field tag) where
  kept {other used} h := by
    have hne : other ≠ field := fun he => by simp [he, hnew] at h
    rw [SortedMap.find?_insert_ne known tag hne]
    exact h
  above {other used} hnone hsome one tag' h := by
    rw [SortedMap.find?_insert] at hsome
    split at hsome
    · exact Option.some.inj hsome ▸ hb.lt_next ht h
    · exact absurd hsome (by simp [hnone])

/-- A walk along fields keeps what is recorded and adds tags above it only. -/
theorem extends_assign (fields : List String) {known : FieldTags} {highest : UInt32}
    (hb : Bounded known highest) : Extends known (assign highest known fields).2 := by
  induction fields generalizing known highest with
  | nil => exact Extends.refl known
  | cons field rest ih =>
      rw [assign]
      split
      · exact ih hb
      · rename_i hnew
        split
        · exact Extends.refl known
        · rename_i tag ht
          exact (Extends.insert hb ht hnew).trans (ih (hb.insert ht field))

/-- A walk along fields keeps tags legal and distinct, also when it runs out of them. -/
theorem Sound.assign (fields : List String) {known : FieldTags} {highest : UInt32}
    (hs : Sound known) (hb : Bounded known highest) :
    Sound (FieldTags.assign highest known fields).2 := by
  induction fields generalizing known highest with
  | nil => exact hs
  | cons field rest ih =>
      rw [FieldTags.assign]
      split
      · exact ih hs hb
      · split
        · exact hs
        · rename_i tag ht
          exact ih (hs.insert hb ht field) (hb.insert ht field)

/-- If the tags do not run out, they are in turn the recorded tags of the fields. -/
theorem map_some_eq_of_assign (fields : List String) {known : FieldTags} {highest : UInt32}
    (hb : Bounded known highest) {tags : List UInt32}
    (h : (assign highest known fields).1 = some tags) :
    tags.map some = fields.map (assign highest known fields).2.find? := by
  induction fields generalizing known highest tags with
  | nil =>
      cases h
      rfl
  | cons field rest ih =>
      rw [assign] at h ⊢
      cases hk : known.find? field with
      | some tag =>
          simp only [hk] at h ⊢
          obtain ⟨others, hothers, rfl⟩ := Option.map_eq_some_iff.1 h
          have hkept := (extends_assign rest hb).kept hk
          rw [List.map_cons, List.map_cons, hkept, ih hb hothers]
      | none =>
          cases hn : Tag.next? highest with
          | none => simp [hk, hn] at h
          | some tag =>
              simp only [hk, hn] at h ⊢
              obtain ⟨others, hothers, rfl⟩ := Option.map_eq_some_iff.1 h
              have hb' := hb.insert hn field
              have hkept := (extends_assign rest hb').kept (known.find?_insert_self field tag)
              rw [List.map_cons, List.map_cons, hkept, ih hb' hothers]

end FieldTags

namespace Ledger

/-- Every message has legal and distinct tags. -/
def Sound (ledger : Ledger) : Prop := ∀ path, (ledger.fieldTags path).Sound

/-- Every message of a later ledger extends what was recorded for it. -/
def Extends (earlier later : Ledger) : Prop :=
  ∀ path, (earlier.fieldTags path).Extends (later.fieldTags path)

theorem Sound.empty : Sound empty := fun _ => FieldTags.Sound.empty

theorem Extends.refl (ledger : Ledger) : Extends ledger ledger := fun _ => .refl _

theorem Extends.trans {first second third : Ledger} (h : Extends first second)
    (h' : Extends second third) : Extends first third := fun path => (h path).trans (h' path)

theorem tag?_eq (ledger : Ledger) (path field : String) :
    ledger.tag? path field = (ledger.fieldTags path).find? field := by
  simp only [tag?, fieldTags]
  cases ledger.messages.find? path with
  | none => rfl
  | some tags => rfl

/-- An assignment in terms of the walk along the fields. -/
theorem assign_eq (ledger : Ledger) (path : String) (fields : List String) :
    let walk := (ledger.fieldTags path).assign (ledger.fieldTags path).highest fields
    ledger.assign path fields =
      (match walk.1 with
        | some tags => .ok tags
        | none => .error (.unimplemented s!"message {path} has exhausted the field tag space"),
        ⟨ledger.messages.insert path walk.2⟩) := by
  intro walk
  rw [assign]
  change (match walk.1 with | some _ => _ | none => _) = _
  cases walk.1 with
  | none => rfl
  | some tags => rfl

theorem fieldTags_assign (ledger : Ledger) (path other : String) (fields : List String) :
    (ledger.assign path fields).2.fieldTags other =
      if other = path then
        ((ledger.fieldTags path).assign (ledger.fieldTags path).highest fields).2
      else ledger.fieldTags other := by
  rw [assign_eq, fieldTags, SortedMap.find?_insert]
  split <;> rfl

theorem extends_assign (ledger : Ledger) (path : String) (fields : List String) :
    Extends ledger (ledger.assign path fields).2 := by
  intro other
  rw [fieldTags_assign]
  split
  · rename_i h
    exact h ▸ FieldTags.extends_assign fields (FieldTags.bounded_highest _)
  · exact FieldTags.Extends.refl _

theorem Sound.assign {ledger : Ledger} (hs : Sound ledger) (path : String)
    (fields : List String) : Sound (ledger.assign path fields).2 := by
  intro other
  rw [fieldTags_assign]
  split
  · exact (hs path).assign fields (FieldTags.bounded_highest _)
  · exact hs other

/-- A successful assignment answers with what the walk along the fields comes to. -/
theorem walk_of_assign {ledger : Ledger} {path : String} {fields : List String}
    {tags : List UInt32} (h : (ledger.assign path fields).1 = .ok tags) :
    ((ledger.fieldTags path).assign (ledger.fieldTags path).highest fields).1 = some tags := by
  rw [assign_eq] at h
  cases hwalk : ((ledger.fieldTags path).assign (ledger.fieldTags path).highest fields).1 with
  | none => simp [hwalk] at h
  | some found =>
      simp only [hwalk, Except.ok.injEq] at h
      rw [h]

/-- A successful assignment answers with what the ledger then has for each field. -/
theorem map_some_eq_of_assign (ledger : Ledger) (path : String) (fields : List String)
    {tags : List UInt32} (h : (ledger.assign path fields).1 = .ok tags) :
    tags.map some = fields.map ((ledger.assign path fields).2.tag? path) := by
  have hwalk := walk_of_assign h
  have hreport : (ledger.assign path fields).2.tag? path =
      ((ledger.fieldTags path).assign (ledger.fieldTags path).highest fields).2.find? := by
    funext field
    rw [tag?_eq, fieldTags_assign, if_pos rfl]
  rw [hreport]
  exact FieldTags.map_some_eq_of_assign fields (FieldTags.bounded_highest _) hwalk

end Ledger

end YangToProto

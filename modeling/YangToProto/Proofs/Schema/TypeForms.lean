import Mathlib.Data.List.Basic
import YangToProto.Proofs.Json.Values
import YangToProto.Schema.Reading
import YangToProto.Schema.Writing

/-!
# Types are read back

A type is read back from its JSON form (`LeafType.ofJson_toJson`) and from the text of that form in
every layout (`LeafType.takes_scan`). The kind of a type and what belongs to it stand among the
members of the type's own object, so the reader keeps all members but the name and the default
until the object has ended (`LeafType.written`).
-/

namespace YangToProto

open Json (Layout)

namespace Json

/-- A list is read back if its items are. -/
theorem asList_map {α : Type} {form : α → Json} {read : Json → Except JsonFault α} {xs : List α}
    (h : ∀ x ∈ xs, read (form x) = .ok x) : asList read (.array (xs.map form)) = .ok xs := by
  change (xs.map form).mapM read = .ok xs
  induction xs with
  | nil => rfl
  | cons x rest ih =>
      obtain ⟨hx, hrest⟩ := List.forall_mem_cons.1 h
      rw [List.map_cons, List.mapM_cons, hx, ih hrest]
      rfl

/-- A member that is read leaves the others to be read. -/
theorem foldlM_cons_of_ok {ε α σ : Type} {add : σ → α → Except ε σ} {s s' : σ} {x : α}
    (h : add s x = .ok s') (rest : List α) : (x :: rest).foldlM add s = rest.foldlM add s' := by
  rw [List.foldlM_cons, h]
  rfl

theorem once_of_ok {α : Type} {read : Json → Except JsonFault α} {value : Json} {x : α}
    (h : read value = .ok x) (name : String) : once name none read value = .ok (some x) := by
  change (read value).map some = _
  rw [h]
  rfl

theorem uniqueMember_of_ok {α : Type} {name : String} {read : Json → Except JsonFault α}
    {value : Json} {x : α} (h : read value = .ok x) (rest : List (String × Json)) :
    uniqueMember name read none ((name, value) :: rest) = uniqueMember name read (some x) rest := by
  rw [uniqueMember, if_pos (beq_self_eq_true name), h]
  rfl

theorem uniqueMember_of_ne {α : Type} {name other : String} (h : other ≠ name)
    (read : Json → Except JsonFault α) (before : Option α) (value : Json)
    (rest : List (String × Json)) :
    uniqueMember name read before ((other, value) :: rest) =
      uniqueMember name read before rest := by
  rw [uniqueMember, if_neg (by simpa using h)]

theorem asInt64_ofInt (value : Int64) : asInt64 (.ofInt value.toInt) = .ok value := by
  have hfits : value.toInt ≤ Int64.maxValue.toInt := Int.le_of_lt_add_one value.toInt_lt
  change (if value.toInt ≤ Int64.maxValue.toInt then _ else _) = _
  rw [if_pos hfits, Int64.ofInt_toInt]

end Json

/-! ## Members of enumerations -/

namespace EnumMember

theorem whole_toJson (member : EnumMember) : member.toJson.Whole := by
  have hlow : -0x8000000000000000 ≤ member.value.toInt := member.value.le_toInt
  have hhigh : member.value.toInt ≤ Scan.largestWord :=
    Int.le_trans (Int.le_of_lt member.value.toInt_lt) (by decide)
  refine .object fun entry hentry => ?_
  rcases List.mem_pair.1 hentry with rfl | rfl
  · exact .string member.name
  · exact .ofInt hlow hhigh

theorem ofJson_toJson (member : EnumMember) : ofJson member.toJson = .ok member := by
  have hname : Partial.add {} ("name", .string member.name) =
      .ok { name := some member.name } := rfl
  have hvalue : Partial.add { name := some member.name } ("value", .ofInt member.value.toInt) =
      .ok { name := some member.name, value := some member.value } := by
    rw [Partial.add, Json.once_of_ok (Json.asInt64_ofInt member.value)]
    rfl
  rw [toJson, ofJson, Json.foldlM_cons_of_ok hname, Json.foldlM_cons_of_ok hvalue]
  rfl

end EnumMember

/-! ## Identity bases -/

namespace IdentityBase

theorem whole_toJson (base : IdentityBase) : base.toJson.Whole := by
  have hvalues : (Json.array (base.values.map .string)).Whole :=
    .array (List.forall_mem_map.2 fun text _ => .string text)
  obtain ⟨name, module, values⟩ := base
  cases module with
  | none =>
      refine .object fun entry hentry => ?_
      rcases List.mem_pair.1 hentry with rfl | rfl
      · exact .string name
      · exact hvalues
  | some module =>
      refine .object (List.forall_mem_cons.2 ⟨.string name, fun entry hentry => ?_⟩)
      rcases List.mem_pair.1 hentry with rfl | rfl
      · exact .string module
      · exact hvalues

theorem Partial.add_values (known : Partial) (values : List String) (h : known.values = none) :
    known.add ("values", .array (values.map .string)) =
      .ok { known with values := some values } := by
  have hread : Json.asList Json.asString (.array (values.map .string)) = .ok values :=
    Json.asList_map fun _ _ => rfl
  rw [Partial.add, h, Json.once_of_ok hread]
  rfl

theorem ofJson_toJson (base : IdentityBase) : ofJson base.toJson = .ok base := by
  obtain ⟨name, module, values⟩ := base
  have hname : Partial.add {} ("name", .string name) = .ok { name := some name } := rfl
  cases module with
  | none =>
      rw [toJson, ofJson, List.append_nil, List.singleton_append, Json.foldlM_cons_of_ok hname,
        Json.foldlM_cons_of_ok (Partial.add_values _ values rfl)]
      rfl
  | some module =>
      have hmodule : Partial.add { name := some name } ("module", .string module) =
          .ok { name := some name, module := some (some module) } := rfl
      rw [toJson, ofJson, List.singleton_append, List.cons_append, List.singleton_append,
        Json.foldlM_cons_of_ok hname, Json.foldlM_cons_of_ok hmodule,
        Json.foldlM_cons_of_ok (Partial.add_values _ values rfl)]
      rfl

end IdentityBase

/-! ## Types -/

theorem KindTag.ofJson_label (s : Scalar) : ofJson (.string s.label) = .ok (.scalar s) := by
  cases s <;> rfl

namespace LeafType

theorem allToJson_eq (types : List LeafType) : allToJson types = types.map toJson := by
  induction types with
  | nil => rfl
  | cons type rest ih => rw [allToJson, ih, List.map_cons]

/-- The member that gives the default of a type, if there is one. -/
def defaultEntries : Option String → List (String × Json)
  | some text => [("default", .string text)]
  | none => []

def entries (type : LeafType) : List (String × Json) :=
  ("name", .string type.name) :: (type.kind.members ++ defaultEntries type.default)

theorem toJson_eq (type : LeafType) : type.toJson = .object type.entries := by
  obtain ⟨name, kind, default⟩ := type
  cases default <;> rfl

theorem whole_defaultEntries (default : Option String) :
    ∀ entry ∈ defaultEntries default, entry.2.Whole := by
  intro entry hentry
  cases default with
  | none => exact absurd hentry List.not_mem_nil
  | some text =>
      cases List.mem_singleton.1 hentry
      exact .string text

mutual

theorem whole_toJson (type : LeafType) : type.toJson.Whole := by
  obtain ⟨name, kind, default⟩ := type
  rw [toJson_eq]
  exact .object (List.forall_mem_cons.2 ⟨.string name,
    List.forall_mem_append.2 ⟨whole_members kind, whole_defaultEntries default⟩⟩)
termination_by structural type

theorem whole_members (kind : TypeKind) : ∀ entry ∈ kind.members, entry.2.Whole := by
  intro entry hentry
  cases kind with
  | scalar s =>
      cases List.mem_singleton.1 hentry
      exact .string s.label
  | enumeration members =>
      rcases List.mem_pair.1 hentry with rfl | rfl
      · exact .string "enumeration"
      · exact .array (List.forall_mem_map.2 fun member _ => member.whole_toJson)
  | identityref base =>
      rcases List.mem_pair.1 hentry with rfl | rfl
      · exact .string "identityref"
      · exact base.whole_toJson
  | union members =>
      rcases List.mem_pair.1 hentry with rfl | rfl
      · exact .string "union"
      · exact .array (whole_allToJson members)
termination_by structural kind

theorem whole_allToJson (types : List LeafType) : ∀ value ∈ allToJson types, value.Whole := by
  cases types with
  | nil => exact List.forall_mem_nil _
  | cons type rest => exact List.forall_mem_cons.2 ⟨whole_toJson type, whole_allToJson rest⟩
termination_by structural types

end

/-- What is known of a type once its own object is read. -/
def written (type : LeafType) : Partial :=
  { name := some type.name, default := type.default.map some, others := type.kind.members.reverse }

/-- The members that give the kind are neither the name nor the default. -/
theorem name_of_mem_members {kind : TypeKind} {entry : String × Json} (h : entry ∈ kind.members) :
    entry.1 ≠ "name" ∧ entry.1 ≠ "default" := by
  have hkind : "kind" ≠ "name" ∧ "kind" ≠ "default" := by decide
  have hmembers : "members" ≠ "name" ∧ "members" ≠ "default" := by decide
  have hbase : "base" ≠ "name" ∧ "base" ≠ "default" := by decide
  cases kind with
  | scalar s =>
      cases List.mem_singleton.1 h
      exact hkind
  | enumeration members =>
      rcases List.mem_pair.1 h with rfl | rfl
      · exact hkind
      · exact hmembers
  | identityref base =>
      rcases List.mem_pair.1 h with rfl | rfl
      · exact hkind
      · exact hbase
  | union members =>
      rcases List.mem_pair.1 h with rfl | rfl
      · exact hkind
      · exact hmembers

theorem Partial.add_other (known : Partial) {entry : String × Json} (hname : entry.1 ≠ "name")
    (hdefault : entry.1 ≠ "default") :
    known.add entry = .ok { known with others := entry :: known.others } := by
  rw [Partial.add]
  · exact fun _ heq => hname (congrArg Prod.fst heq)
  · exact fun _ heq => hdefault (congrArg Prod.fst heq)

theorem foldlM_others {others : List (String × Json)}
    (h : ∀ entry ∈ others, entry.1 ≠ "name" ∧ entry.1 ≠ "default") (known : Partial)
    (rest : List (String × Json)) :
    (others ++ rest).foldlM Partial.add known =
      rest.foldlM Partial.add { known with others := others.reverse ++ known.others } := by
  induction others generalizing known with
  | nil => rfl
  | cons entry more ih =>
      obtain ⟨⟨hname, hdefault⟩, hmore⟩ := List.forall_mem_cons.1 h
      rw [List.cons_append, Json.foldlM_cons_of_ok (known.add_other hname hdefault), ih hmore,
        List.reverse_cons, List.append_assoc]
      rfl

theorem foldlM_entries (type : LeafType) :
    type.entries.foldlM Partial.add {} = .ok type.written := by
  have hname : Partial.add {} ("name", .string type.name) = .ok { name := some type.name } := rfl
  rw [entries, Json.foldlM_cons_of_ok hname, foldlM_others fun _ => name_of_mem_members,
    List.append_nil, written]
  cases type.default <;> rfl

/-- A member behind the kind is read if it is the only one of its name. -/
theorem uniqueMember_behind_kind {α : Type} {name : String} (hname : name ≠ "kind")
    {read : Json → Except JsonFault α} {label value : Json} {x : α} (h : read value = .ok x) :
    Json.uniqueMember name read none [("kind", label), (name, value)] = .ok x := by
  rw [Json.uniqueMember_of_ne hname.symm, Json.uniqueMember_of_ok h]
  rfl

/-- The kind is read in front of a member of another name. -/
theorem uniqueMember_kind {name : String} (hname : name ≠ "kind") {label value : Json}
    {tag : KindTag} (h : KindTag.ofJson label = .ok tag) :
    Json.uniqueMember "kind" KindTag.ofJson none [("kind", label), (name, value)] = .ok tag := by
  rw [Json.uniqueMember_of_ok h, Json.uniqueMember_of_ne hname]
  rfl

/-- A type is made of what was written of it, if the members of a union are read back. -/
theorem finish_written {types : Json → Except JsonFault (List LeafType)} (type : LeafType)
    (h : ∀ members, type.kind = .union members →
      types (.array (allToJson members)) = .ok members) :
    type.written.finish types = .ok type := by
  obtain ⟨name, kind, default⟩ := type
  -- a default that is absent and one that is null are the same
  have hdefault : (default.map some).getD none = default := by cases default <;> rfl
  have hmember : "members" ≠ "kind" := by decide
  have hbase : "base" ≠ "kind" := by decide
  cases kind with
  | scalar s =>
      have hkind : Json.uniqueMember "kind" KindTag.ofJson none [("kind", .string s.label)] =
          .ok (.scalar s) := Json.uniqueMember_of_ok (KindTag.ofJson_label s) []
      simp only [Partial.finish, written, List.reverse_reverse, TypeKind.members, hkind, hdefault]
      rfl
  | enumeration members =>
      have hread : Json.asList EnumMember.ofJson (.array (members.map EnumMember.toJson)) =
          .ok members := Json.asList_map fun member _ => member.ofJson_toJson
      have htag : KindTag.ofJson (.string "enumeration") = .ok .enumeration := rfl
      simp only [Partial.finish, written, List.reverse_reverse, TypeKind.members, hdefault,
        uniqueMember_kind hmember htag, uniqueMember_behind_kind hmember hread]
      rfl
  | identityref base =>
      have htag : KindTag.ofJson (.string "identityref") = .ok .identityref := rfl
      simp only [Partial.finish, written, List.reverse_reverse, TypeKind.members, hdefault,
        uniqueMember_kind hbase htag, uniqueMember_behind_kind hbase base.ofJson_toJson]
      rfl
  | union members =>
      have htag : KindTag.ofJson (.string "union") = .ok .union := rfl
      simp only [Partial.finish, written, List.reverse_reverse, TypeKind.members, hdefault,
        uniqueMember_kind hmember htag, uniqueMember_behind_kind hmember (h members rfl)]
      rfl

/-- The members of a union nest less deep than the union, by the object and its array. -/
theorem depth_of_mem_union {type inner : LeafType} {members : List LeafType}
    (hkind : type.kind = .union members) (hinner : inner ∈ members) :
    inner.toJson.depth + 2 ≤ type.toJson.depth := by
  have hentry : ("members", Json.array (allToJson members)) ∈ type.entries := by
    rw [entries, hkind]
    exact List.mem_cons_of_mem _ (List.mem_append_left _ (List.mem_pair.2 (.inr rfl)))
  have hitem : inner.toJson ∈ allToJson members := by
    rw [allToJson_eq]
    exact List.mem_map_of_mem hinner
  have harray := Json.depth_lt_of_mem_items hitem
  have hobject := Json.depth_lt_of_mem_members hentry
  rw [toJson_eq type]
  dsimp only at hobject
  omega

theorem depth_ne_zero {depth : Nat} {type : LeafType} (h : type.toJson.depth ≤ depth) :
    depth ≠ 0 := by
  rw [toJson_eq] at h
  exact Nat.ne_zero_of_lt h

/-- A type is read back from its JSON form. -/
theorem ofJson_toJson {depth : Nat} (type : LeafType) (h : type.toJson.depth ≤ depth) :
    ofJson depth type.toJson = .ok type := by
  induction depth generalizing type with
  | zero => exact absurd rfl (depth_ne_zero h)
  | succ depth ih =>
      have hmembers : ∀ members, type.kind = .union members →
          Json.asList (ofJson depth) (.array (allToJson members)) = .ok members := by
        intro members hkind
        rw [allToJson_eq]
        refine Json.asList_map fun inner hinner => ih inner ?_
        have hdepth := depth_of_mem_union hkind hinner
        omega
      rw [toJson_eq, ofJson, foldlM_entries]
      exact finish_written type hmembers

/-! ## Texts of types -/

open Scan

variable {layout : Layout} {rounds depth level : Nat}

/-- Takes what stands behind the name of a member of a type. -/
def scanMember (rounds depth : Nat) (name : String) (known : Partial) : Scan Partial := do
  match name with
  | "name" =>
    return { known with name := ← Scan.once "name" known.name (Scan.expectString "a string") }
  | "default" =>
    return { known with
      default := ← Scan.once "default" known.default
        (Scan.expectOption (Scan.expectString "a string")) }
  | other =>
    Scan.colon
    return { known with others := (other, ← Scan.value rounds depth) :: known.others }

theorem scan_eq (rounds depth : Nat) :
    scan rounds depth =
      (Scan.expectMembers "struct TypeDescriptor" rounds depth (scanMember rounds) {} >>=
        fun known =>
          match known.finish (Json.asList (ofJson depth)) with
          | .ok type => pure type
          | .error fault => throw fault) := rfl

theorem takes_scanMember_name (name : String) (known : Partial) (h : known.name = none) :
    Takes (scanMember rounds depth "name" known) (layout.member level ("name", .string name)).2
      { known with name := some name } := by
  have hname := takes_once (takes_expectString layout level "a string" name) "name"
  rw [← h] at hname
  exact hname.map fun name => { known with name }

theorem takes_scanMember_default (text : String) (known : Partial) (h : known.default = none) :
    Takes (scanMember rounds depth "default" known)
      (layout.member level ("default", .string text)).2
      { known with default := some (some text) } := by
  have hdefault := takes_once (takes_expectOption (takes_expectString layout level "a string" text)
    (exists_start_string layout level text)) "default"
  rw [← h] at hdefault
  exact hdefault.map fun default => { known with default }

theorem takes_scanMember_other {entry : String × Json} (hname : entry.1 ≠ "name")
    (hdefault : entry.1 ≠ "default")
    (h : Takes (value rounds depth) (layout.text level entry.2) entry.2) (known : Partial) :
    Takes (scanMember rounds depth entry.1 known) (layout.member level entry).2
      { known with others := entry :: known.others } := by
  have hother : scanMember rounds depth entry.1 known = (colon >>= fun _ => value rounds depth >>=
      fun v => pure { known with others := (entry.1, v) :: known.others }) := by
    rw [scanMember]
    · exact hname
    · exact hdefault
  rw [hother]
  exact takes_behind_colon layout.blank_space
    (h.map fun v => { known with others := (entry.1, v) :: known.others })

theorem gathers_others {others : List (String × Json)}
    (hnames : ∀ entry ∈ others, entry.1 ≠ "name" ∧ entry.1 ≠ "default")
    (h : ∀ entry ∈ others, Takes (value rounds depth) (layout.text level entry.2) entry.2)
    (known : Partial) :
    Gathers (scanMember rounds depth) known (others.map (layout.member level))
      { known with others := others.reverse ++ known.others } := by
  induction others generalizing known with
  | nil => exact .nil
  | cons entry rest ih =>
      obtain ⟨⟨hname, hdefault⟩, hothers⟩ := List.forall_mem_cons.1 hnames
      obtain ⟨hentry, hmore⟩ := List.forall_mem_cons.1 h
      rw [List.reverse_cons, List.append_assoc]
      exact .cons (takes_scanMember_other hname hdefault hentry known) (ih hothers hmore _)

theorem gathers_entries (type : LeafType)
    (h : ∀ entry ∈ type.kind.members,
      Takes (value rounds depth) (layout.text level entry.2) entry.2) :
    Gathers (scanMember rounds depth) {} (type.entries.map (layout.member level))
      type.written := by
  have hkind := gathers_others (fun _ => name_of_mem_members) h { name := some type.name }
  have hdefault : Gathers (scanMember rounds depth)
      { name := some type.name, others := type.kind.members.reverse }
      ((defaultEntries type.default).map (layout.member level)) type.written := by
    rw [written]
    cases type.default with
    | none => exact .nil
    | some text => exact .cons (takes_scanMember_default text _ rfl) .nil
  rw [List.append_nil] at hkind
  rw [entries, List.map_cons, List.map_append]
  exact .cons (takes_scanMember_name type.name {} rfl) (hkind.append hdefault)

/-- A type is read back from its text. -/
theorem takes_scan (type : LeafType) (hdepth : type.toJson.depth ≤ depth)
    (hrounds : (layout.text level type.toJson).length ≤ rounds) :
    Takes (scan rounds depth) (layout.text level type.toJson) type := by
  obtain ⟨depth, rfl⟩ := Nat.exists_eq_succ_of_ne_zero (depth_ne_zero hdepth)
  have hfinish : type.written.finish (Json.asList (ofJson (depth + 1))) = .ok type := by
    refine finish_written type fun members hkind => ?_
    rw [allToJson_eq]
    refine Json.asList_map fun inner hinner => ofJson_toJson inner ?_
    have hinside := depth_of_mem_union hkind hinner
    omega
  rw [toJson_eq] at hdepth hrounds ⊢
  have hvalues : ∀ entry ∈ type.kind.members,
      Takes (value rounds depth) (layout.text (level + 1) entry.2) entry.2 := by
    intro entry hentry
    have hmember : entry ∈ type.entries :=
      List.mem_cons_of_mem _ (List.mem_append_left _ hentry)
    have hinside := Json.depth_lt_of_mem_members hmember
    have hlength := layout.length_member_lt hmember level
    exact takes_value (whole_members type.kind entry hentry) (by omega) (by omega)
  have hmembers := takes_expectMembers (scanMember rounds)
    (gathers_entries type hvalues) hrounds "struct TypeDescriptor"
  intro blanks rest hblanks hrest
  rw [scan_eq, bind_of_ok (hmembers blanks rest hblanks hrest)]
  simp only [hfinish]
  rfl

end LeafType

end YangToProto

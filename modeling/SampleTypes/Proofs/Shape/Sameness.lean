import SampleTypes.Proofs.Entries
import SampleTypes.Shape.Basic

/-!
# Sameness of shapes

`agree` compares two types node by node and finds the counterpart of a field by its key. It checks
only that the two lists of fields are of one length and that every field of the first has a
counterpart in the second. As keys are distinct, the fields of the second then have counterparts in
the first, at every level: comparing is an equivalence as soon as comparing two nodes is one.

* `Shape.same_refl`, `Shape.same_symm`, `Shape.same_trans`: sameness as rendered is an equivalence on
  shapes whose keys are distinct at every depth (`Shape.Proper`).
* `Shape.levels_eq_of_same`: shapes that are the same are nested equally deep.
-/

namespace SampleTypes

namespace FieldType

/-- Induction over types: types without fields, and types whose fields' types are dealt with. -/
@[elab_as_elim]
theorem fields_induction {motive : FieldType → Prop}
    (leaf : ∀ type : FieldType, type.fields = none → motive type)
    (node : ∀ (type : FieldType) (fields : Shape), type.fields = some fields →
      (∀ field ∈ fields, motive field.2) → motive type)
    (type : FieldType) : motive type :=
  @FieldType.rec motive
    (fun fields? => ∀ fields ∈ fields?, ∀ field ∈ fields, motive field.2)
    (fun fields => ∀ field ∈ fields, motive field.2)
    (fun field => motive field.2)
    (fun kind label optional isArray fields? ih =>
      match fields?, ih with
      | none, _ => leaf ⟨kind, label, optional, isArray, none⟩ rfl
      | some fields, ih => node ⟨kind, label, optional, isArray, some fields⟩ fields rfl (ih fields rfl))
    (fun _ h => nomatch h)
    (fun _ ih _ h => Option.mem_some.mp h ▸ ih)
    (fun _ h => nomatch h)
    (fun _ _ ih ihs => List.forall_mem_cons.mpr ⟨ih, ihs⟩)
    (fun _ _ ih => ih)
    type

/-- Keys are distinct at every depth, as they are in types that have been inferred or read. -/
inductive Proper : FieldType → Prop
  | leaf {type : FieldType} (h : type.fields = none) : Proper type
  | node {type : FieldType} {fields : Shape} (h : type.fields = some fields)
      (hd : fields.Distinct) (hp : ∀ field ∈ fields, Proper field.2) : Proper type

end FieldType

def Shape.Proper (shape : Shape) : Prop :=
  shape.Distinct ∧ ∀ field ∈ shape, field.2.Proper

theorem FieldType.Proper.fields {type : FieldType} {fields : Shape} (h : type.Proper)
    (hf : type.fields = some fields) : Shape.Proper fields := by
  cases h with
  | leaf hnone =>
      rw [hf] at hnone
      cases hnone
  | node hsome hd hp =>
      rw [hf] at hsome
      cases hsome
      exact ⟨hd, hp⟩

/-! ## What a comparison checks -/

section Agree

variable {node : FieldType → FieldType → Bool}

/-- Fields agree with others if each one agrees with that of its key. -/
theorem FieldType.agreeWithin_iff {fields others : Shape} :
    agreeWithin node fields others = true ↔
      ∀ field ∈ fields, ∃ other, others.find? field.1 = some other ∧
        agree node field.2 other = true := by
  induction fields with
  | nil => simp [agreeWithin]
  | cons field rest ih =>
      obtain ⟨key, a⟩ := field
      rw [agreeWithin, Bool.and_eq_true, ih, List.forall_mem_cons]
      refine and_congr_left fun _ => ?_
      cases others.find? key with
      | none => simp
      | some other => simp

/-- Two shapes agree if they are equally long and every field has a counterpart that agrees. -/
theorem Shape.agree_iff {a b : Shape} :
    Shape.agree node a b = true ↔ a.length = b.length ∧
      ∀ field ∈ a, ∃ other, b.find? field.1 = some other ∧
        FieldType.agree node field.2 other = true := by
  rw [Shape.agree, Bool.and_eq_true, beq_iff_eq, FieldType.agreeWithin_iff]

theorem FieldType.agree_of_none {a b : FieldType} (ha : a.fields = none) :
    agree node a b = true ↔ node a b = true ∧ b.fields = none := by
  obtain ⟨kind, label, optional, isArray, fields?⟩ := a
  cases ha
  rw [agree, Bool.and_eq_true, Option.isNone_iff_eq_none]

theorem FieldType.agree_of_some {a b : FieldType} {fields : Shape} (ha : a.fields = some fields) :
    agree node a b = true ↔ node a b = true ∧
      ∃ others, b.fields = some others ∧ Shape.agree node fields others = true := by
  obtain ⟨kind, label, optional, isArray, fields?⟩ := a
  cases ha
  rw [agree, Bool.and_eq_true]
  refine and_congr_right fun _ => ?_
  cases b.fields with
  | none => simp
  | some others => simp [Shape.agree]

theorem FieldType.node_of_agree {a b : FieldType} (h : agree node a b = true) :
    node a b = true := by
  cases ha : a.fields with
  | none => exact ((agree_of_none ha).mp h).1
  | some fields => exact ((agree_of_some ha).mp h).1

/-! ## An equivalence -/

/-- A shape agrees with itself if its fields do, as each one is found by its key. -/
theorem Shape.agree_refl_of {shape : Shape} (hd : shape.Distinct)
    (hrefl : ∀ field ∈ shape, FieldType.agree node field.2 field.2 = true) :
    Shape.agree node shape shape = true :=
  agree_iff.mpr ⟨rfl, fun field hfield =>
    ⟨field.2, (Entries.find?_eq_some hd).mpr hfield, hrefl field hfield⟩⟩

theorem FieldType.agree_refl (hnode : ∀ a, node a a = true) {a : FieldType} (ha : a.Proper) :
    agree node a a = true := by
  induction a using fields_induction with
  | leaf a hf => exact (agree_of_none hf).mpr ⟨hnode a, hf⟩
  | node a fields hf ih =>
      obtain ⟨hd, hp⟩ := ha.fields hf
      exact (agree_of_some hf).mpr ⟨hnode a, fields, hf,
        Shape.agree_refl_of hd fun field hfield => ih field hfield (hp field hfield)⟩

/-- With distinct keys the fields of the second shape have counterparts in the first one. -/
theorem Shape.agree_symm_of {a b : Shape} (ha : a.Distinct) (hb : b.Distinct)
    (hsymm : ∀ field ∈ a, ∀ other, (field.1, other) ∈ b →
      FieldType.agree node field.2 other = true → FieldType.agree node other field.2 = true)
    (h : Shape.agree node a b = true) : Shape.agree node b a = true := by
  obtain ⟨hlength, hcounterpart⟩ := agree_iff.mp h
  have hkeys : a.keys ⊆ b.keys := by
    intro key hkey
    obtain ⟨value, hmem⟩ := Entries.mem_keys.mp hkey
    obtain ⟨other, hother, -⟩ := hcounterpart _ hmem
    exact Entries.mem_keys_of_mem (Entries.mem_of_find? hother)
  refine agree_iff.mpr ⟨hlength.symm, fun other hother => ?_⟩
  have hkey : other.1 ∈ a.keys :=
    Entries.keys_subset_of_length ha hlength hkeys (Entries.mem_keys_of_mem hother)
  obtain ⟨type, htype⟩ := Entries.mem_keys.mp hkey
  obtain ⟨found, hfound, hagree⟩ := hcounterpart _ htype
  -- The counterpart that the look-up finds is the field we started from.
  have hsame : found = other.2 := Entries.eq_of_mem hb (Entries.mem_of_find? hfound) hother
  subst hsame
  exact ⟨type, (Entries.find?_eq_some ha).mpr htype, hsymm _ htype _ hother hagree⟩

/-- Proper types agree in both directions, if marks do. -/
theorem FieldType.agree_symm (hnode : ∀ a b, node a b = true → node b a = true) {a b : FieldType}
    (ha : a.Proper) (hb : b.Proper) (h : agree node a b = true) : agree node b a = true := by
  induction a using fields_induction generalizing b with
  | leaf a hf =>
      obtain ⟨hab, hbf⟩ := (agree_of_none hf).mp h
      exact (agree_of_none hbf).mpr ⟨hnode a b hab, hf⟩
  | node a fields hf ih =>
      obtain ⟨hab, others, hbf, hagree⟩ := (agree_of_some hf).mp h
      obtain ⟨had, hap⟩ := ha.fields hf
      obtain ⟨hbd, hbp⟩ := hb.fields hbf
      refine (agree_of_some hbf).mpr ⟨hnode a b hab, fields, hf, ?_⟩
      refine Shape.agree_symm_of had hbd (fun field hfield other hother => ?_) hagree
      exact ih field hfield (hap field hfield) (hbp _ hother)

theorem Shape.agree_trans_of {a b c : Shape}
    (htrans : ∀ field ∈ a, ∀ other third, FieldType.agree node field.2 other = true →
      FieldType.agree node other third = true → FieldType.agree node field.2 third = true)
    (hab : Shape.agree node a b = true) (hbc : Shape.agree node b c = true) :
    Shape.agree node a c = true := by
  obtain ⟨hlength, hcounterpart⟩ := agree_iff.mp hab
  obtain ⟨hlength', hcounterpart'⟩ := agree_iff.mp hbc
  refine agree_iff.mpr ⟨hlength.trans hlength', fun field hfield => ?_⟩
  obtain ⟨other, hother, hagree⟩ := hcounterpart field hfield
  obtain ⟨third, hthird, hagree'⟩ := hcounterpart' _ (Entries.mem_of_find? hother)
  exact ⟨third, hthird, htrans field hfield other third hagree hagree'⟩

/-- Agreement is transitive, if that of marks is. -/
theorem FieldType.agree_trans
    (hnode : ∀ a b c, node a b = true → node b c = true → node a c = true) {a b c : FieldType}
    (hab : agree node a b = true) (hbc : agree node b c = true) : agree node a c = true := by
  induction a using fields_induction generalizing b c with
  | leaf a hf =>
      obtain ⟨hn, hbf⟩ := (agree_of_none hf).mp hab
      obtain ⟨hn', hcf⟩ := (agree_of_none hbf).mp hbc
      exact (agree_of_none hf).mpr ⟨hnode a b c hn hn', hcf⟩
  | node a fields hf ih =>
      obtain ⟨hn, others, hbf, hagree⟩ := (agree_of_some hf).mp hab
      obtain ⟨hn', thirds, hcf, hagree'⟩ := (agree_of_some hbf).mp hbc
      refine (agree_of_some hf).mpr ⟨hnode a b c hn hn', thirds, hcf, ?_⟩
      exact Shape.agree_trans_of (fun field hfield _ _ => ih field hfield) hagree hagree'

/-- A coarser comparison of nodes is one of types. -/
theorem FieldType.agree_mono {coarse : FieldType → FieldType → Bool} {a b : FieldType}
    (hnode : ∀ a b, node a b = true → coarse a b = true) (h : agree node a b = true) :
    agree coarse a b = true := by
  induction a using fields_induction generalizing b with
  | leaf a hf =>
      obtain ⟨hab, hb⟩ := (agree_of_none hf).mp h
      exact (agree_of_none hf).mpr ⟨hnode a b hab, hb⟩
  | node a fields hf ih =>
      obtain ⟨hab, others, hothers, hagree⟩ := (agree_of_some hf).mp h
      obtain ⟨hlength, hcounterpart⟩ := Shape.agree_iff.mp hagree
      refine (agree_of_some hf).mpr ⟨hnode a b hab, others, hothers, Shape.agree_iff.mpr ⟨hlength, ?_⟩⟩
      intro field hfield
      obtain ⟨other, hother, hfields⟩ := hcounterpart field hfield
      exact ⟨other, hother, ih field hfield hfields⟩

end Agree

/-! ## Sameness as rendered -/

theorem FieldType.sameMarks_iff {a b : FieldType} :
    sameMarks a b = true ↔
      a.label = b.label ∧ a.optional = b.optional ∧ a.isArray = b.isArray := by
  simp [sameMarks, and_assoc]

theorem FieldType.sameMarks_refl (a : FieldType) : sameMarks a a = true :=
  sameMarks_iff.mpr ⟨rfl, rfl, rfl⟩

theorem FieldType.sameMarks_symm (a b : FieldType) (h : sameMarks a b = true) :
    sameMarks b a = true := by
  obtain ⟨hlabel, hoptional, harray⟩ := sameMarks_iff.mp h
  exact sameMarks_iff.mpr ⟨hlabel.symm, hoptional.symm, harray.symm⟩

theorem FieldType.sameMarks_trans (a b c : FieldType) (h : sameMarks a b = true)
    (h' : sameMarks b c = true) : sameMarks a c = true := by
  obtain ⟨hlabel, hoptional, harray⟩ := sameMarks_iff.mp h
  obtain ⟨hlabel', hoptional', harray'⟩ := sameMarks_iff.mp h'
  exact sameMarks_iff.mpr
    ⟨hlabel.trans hlabel', hoptional.trans hoptional', harray.trans harray'⟩

theorem FieldType.equalMarks_iff {a b : FieldType} :
    equalMarks a b = true ↔ a.kind = b.kind ∧ sameMarks a b = true := by
  rw [equalMarks, Bool.and_eq_true, beq_iff_eq]

theorem FieldType.sameMarks_of_equalMarks (a b : FieldType) (h : equalMarks a b = true) :
    sameMarks a b = true :=
  (equalMarks_iff.mp h).2

namespace Shape

variable {a b c : Shape}

theorem same_refl (ha : a.Proper) : a.same a = true :=
  agree_refl_of ha.1 fun field hfield =>
    FieldType.agree_refl FieldType.sameMarks_refl (ha.2 field hfield)

theorem same_symm (ha : a.Proper) (hb : b.Proper) (h : a.same b = true) : b.same a = true :=
  agree_symm_of ha.1 hb.1 (fun field hfield _ hother =>
    FieldType.agree_symm FieldType.sameMarks_symm (ha.2 field hfield) (hb.2 _ hother)) h

theorem same_trans (hab : a.same b = true) (hbc : b.same c = true) : a.same c = true :=
  agree_trans_of (fun _ _ _ _ => FieldType.agree_trans FieldType.sameMarks_trans) hab hbc

theorem same_congr_left (ha : a.Proper) (hb : b.Proper) (h : a.same b = true) :
    a.same c = b.same c := by
  rw [Bool.eq_iff_iff]
  exact ⟨fun hac => same_trans (same_symm ha hb h) hac, fun hbc => same_trans h hbc⟩

/-- A shape may stand for one it is the same as. -/
theorem same_congr_right (hb : b.Proper) (hc : c.Proper) (h : b.same c = true) :
    a.same b = a.same c := by
  rw [Bool.eq_iff_iff]
  exact ⟨fun hab => same_trans hab h, fun hac => same_trans hac (same_symm hb hc h)⟩

end Shape

/-! ## Levels of nesting -/

mutual

/-- How many levels of fields a type has. -/
def FieldType.levels : FieldType → Nat
  | ⟨_, _, _, _, none⟩ => 0
  | ⟨_, _, _, _, some fields⟩ => levelsOf fields + 1

def FieldType.levelsOf : List (String × FieldType) → Nat
  | [] => 0
  | (_, type) :: rest => max type.levels (levelsOf rest)

end

/-- How many levels of fields a shape has, its own included. -/
def Shape.levels (shape : Shape) : Nat :=
  FieldType.levelsOf shape + 1

namespace FieldType

theorem levels_of_none {type : FieldType} (h : type.fields = none) : type.levels = 0 := by
  obtain ⟨kind, label, optional, isArray, fields?⟩ := type
  cases h
  rw [levels]

theorem levels_of_some {type : FieldType} {fields : Shape} (h : type.fields = some fields) :
    type.levels = fields.levels := by
  obtain ⟨kind, label, optional, isArray, fields?⟩ := type
  cases h
  rw [levels, Shape.levels]

theorem levelsOf_le_iff {fields : Shape} {bound : Nat} :
    levelsOf fields ≤ bound ↔ ∀ field ∈ fields, field.2.levels ≤ bound := by
  induction fields with
  | nil => simp [levelsOf]
  | cons field rest ih =>
      obtain ⟨key, type⟩ := field
      rw [levelsOf, Nat.max_le, ih, List.forall_mem_cons]

end FieldType

namespace Shape

variable {a b : Shape}

/-- A shape has one level more than its fields. -/
theorem levels_le_iff {bound : Nat} :
    a.levels ≤ bound + 1 ↔ ∀ field ∈ a, field.2.levels ≤ bound := by
  rw [levels, Nat.succ_le_succ_iff, FieldType.levelsOf_le_iff]

/-- A field's type has fewer levels than the shape. -/
theorem levels_lt_of_mem {field : String × FieldType} (h : field ∈ a) :
    field.2.levels < a.levels := by
  have := FieldType.levelsOf_le_iff.mp (Nat.le_refl (FieldType.levelsOf a)) field h
  rw [levels]
  omega

end Shape

theorem Shape.levels_le_of_agree_of {node : FieldType → FieldType → Bool} {a b : Shape}
    (hle : ∀ field ∈ a, ∀ other, FieldType.agree node field.2 other = true →
      field.2.levels ≤ other.levels)
    (h : Shape.agree node a b = true) : a.levels ≤ b.levels := by
  obtain ⟨-, hcounterpart⟩ := agree_iff.mp h
  refine levels_le_iff.mpr fun field hfield => ?_
  obtain ⟨other, hother, hagree⟩ := hcounterpart field hfield
  have hlt := levels_lt_of_mem (Entries.mem_of_find? hother)
  have := hle field hfield other hagree
  rw [levels] at hlt
  simp only at hlt
  omega

/-- A type has no more levels than one that it agrees with. -/
theorem FieldType.levels_le_of_agree {node : FieldType → FieldType → Bool} {a b : FieldType}
    (h : agree node a b = true) : a.levels ≤ b.levels := by
  induction a using fields_induction generalizing b with
  | leaf a hf =>
      rw [levels_of_none hf]
      exact Nat.zero_le _
  | node a fields hf ih =>
      obtain ⟨-, others, hbf, hagree⟩ := (agree_of_some hf).mp h
      rw [levels_of_some hf, levels_of_some hbf]
      exact Shape.levels_le_of_agree_of (fun field hfield _ => ih field hfield) hagree

theorem Shape.levels_le_of_same {a b : Shape} (h : a.same b = true) : a.levels ≤ b.levels :=
  levels_le_of_agree_of (fun _ _ _ => FieldType.levels_le_of_agree) h

/-- Shapes that are the same are nested equally deep. -/
theorem Shape.levels_eq_of_same {a b : Shape} (ha : a.Proper) (hb : b.Proper)
    (h : a.same b = true) : a.levels = b.levels :=
  Nat.le_antisymm (levels_le_of_same h) (levels_le_of_same (same_symm ha hb h))

end SampleTypes

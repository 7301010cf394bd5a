import Mathlib.Data.List.Nodup
import Mathlib.Data.List.Perm.Subperm
import Mathlib.Data.String.Basic
import SampleTypes.Proofs.Store.Lookup

/-!
# The canonical form of a shape

Two shapes are equal if they are one and the same once the fields are put in the order of their keys at
every level (`Shape.equal_iff_sorted`), and they are the same as rendered if they are equal once all kinds
are forgotten (`Shape.same_iff_equal_withoutKinds`). So sameness is an equivalence of which every class has
a canonical form, and what lies between sameness and equality are the kinds alone, path by path
(`sameness_canonical`).
-/

namespace SampleTypes

/-! ## Entries in the order of their keys -/

namespace Entries

variable {α β : Type} {a b : Entries α}

/-- The entries in the order of their keys. -/
def inOrder (entries : Entries α) : Entries α :=
  entries.mergeSort fun a b => decide (a.1 ≤ b.1)

theorem inOrder_perm (entries : Entries α) : entries.inOrder.Perm entries :=
  List.mergeSort_perm entries _

theorem pairwise_inOrder (entries : Entries α) :
    entries.inOrder.Pairwise fun a b => a.1 ≤ b.1 := by
  have hpairwise : entries.inOrder.Pairwise fun a b => decide (a.1 ≤ b.1) = true := by
    refine List.pairwise_mergeSort (fun a b c hab hbc => ?_) (fun a b => ?_) entries
    · exact decide_eq_true (le_trans (of_decide_eq_true hab) (of_decide_eq_true hbc))
    · simpa using le_total a.1 b.1
  exact hpairwise.imp of_decide_eq_true

/-- With distinct keys, two lists of entries are equal in the order of their keys if they are equally long
and one of them has all that is in the other. -/
theorem inOrder_eq_iff (ha : a.Distinct) :
    a.inOrder = b.inOrder ↔ a.length = b.length ∧ ∀ entry ∈ a, entry ∈ b := by
  constructor
  · intro h
    have hperm : a.Perm b := (inOrder_perm a).symm.trans (h ▸ inOrder_perm b)
    exact ⟨hperm.length_eq, fun entry => hperm.mem_iff.mp⟩
  · rintro ⟨hlength, hsub⟩
    have hnodup : a.Nodup := List.Nodup.of_map Prod.fst ha
    have hperm : a.Perm b := (hnodup.subperm hsub).perm_of_length_le hlength.ge
    have hsorted : a.inOrder.Perm b.inOrder :=
      (inOrder_perm a).trans (hperm.trans (inOrder_perm b).symm)
    refine hsorted.eq_of_pairwise (fun x y hx hy hle hge => ?_) (pairwise_inOrder a)
      (pairwise_inOrder b)
    -- Entries that neither comes before the other have one key, and so are one entry.
    obtain ⟨key, value⟩ := x
    obtain ⟨key', value'⟩ := y
    have hkey : key = key' := le_antisymm hle hge
    subst hkey
    have hx' : (key, value) ∈ a := (inOrder_perm a).mem_iff.mp hx
    have hy' : (key, value') ∈ a := hperm.mem_iff.mpr ((inOrder_perm b).mem_iff.mp hy)
    rw [eq_of_mem ha hx' hy']

theorem find?_map (f : α → β) (key : String) (entries : Entries α) :
    find? key (entries.map fun entry => (entry.1, f entry.2)) = (find? key entries).map f := by
  induction entries with
  | nil => rfl
  | cons entry rest ih =>
      rw [List.map_cons, find?, find?]
      split
      · rfl
      · exact ih

theorem distinct_map (f : α → β) {entries : Entries α} :
    Distinct (entries.map fun entry => (entry.1, f entry.2)) ↔ entries.Distinct := by
  rw [Distinct, Distinct, keys, keys, List.map_map]
  rfl

end Entries

/-! ## Fields in order -/

namespace FieldType

mutual

def sorted : FieldType → FieldType
  | ⟨kind, label, optional, isArray, none⟩ => ⟨kind, label, optional, isArray, none⟩
  | ⟨kind, label, optional, isArray, some fields⟩ =>
    ⟨kind, label, optional, isArray, some (Entries.inOrder (sortedWithin fields))⟩

def sortedWithin : List (String × FieldType) → List (String × FieldType)
  | [] => []
  | (key, type) :: rest => (key, type.sorted) :: sortedWithin rest

end

theorem sortedWithin_eq_map (fields : Shape) :
    sortedWithin fields = fields.map fun field => (field.1, field.2.sorted) := by
  induction fields with
  | nil => rw [sortedWithin, List.map_nil]
  | cons field fields ih => rw [sortedWithin, ih, List.map_cons]

end FieldType

/-- The shape with its fields in the order of their keys, at every level. -/
def Shape.sorted (shape : Shape) : Shape :=
  Entries.inOrder (FieldType.sortedWithin shape)

namespace FieldType

variable {a b : FieldType}

/-- Sorting leaves a node alone, and goes on in its fields. -/
theorem sorted_eq_sorted_iff : a.sorted = b.sorted ↔
    equalMarks a b = true ∧ a.fields.map Shape.sorted = b.fields.map Shape.sorted := by
  have hnode : ∀ type : FieldType, type.sorted = ⟨type.kind, type.label, type.optional,
      type.isArray, type.fields.map Shape.sorted⟩ := by
    rintro ⟨kind, label, optional, isArray, fields?⟩
    cases fields? <;> (rw [sorted]; rfl)
  rw [hnode a, hnode b, FieldType.mk.injEq, equalMarks_iff, sameMarks_iff]
  simp only [and_assoc]

end FieldType

/-- Shapes are equal if their sorted forms are, provided that this holds of the types of their fields. -/
theorem Shape.equal_iff_sorted_of {a b : Shape} (ha : a.Distinct) (hb : b.Distinct)
    (h : ∀ field ∈ a, ∀ other, (field.1, other) ∈ b →
      (FieldType.agree FieldType.equalMarks field.2 other = true ↔ field.2.sorted = other.sorted)) :
    a.equal b = true ↔ a.sorted = b.sorted := by
  have hdistinct : Entries.Distinct (a.map fun field => (field.1, field.2.sorted)) :=
    (Entries.distinct_map FieldType.sorted).mpr ha
  rw [equal, agree_iff, sorted, sorted, FieldType.sortedWithin_eq_map,
    FieldType.sortedWithin_eq_map, Entries.inOrder_eq_iff hdistinct, List.length_map,
    List.length_map, List.forall_mem_map]
  refine and_congr_right fun _ => forall_congr' fun field => forall_congr' fun hfield => ?_
  rw [List.mem_map]
  constructor
  · rintro ⟨other, hother, hagree⟩
    have hmem := Entries.mem_of_find? hother
    exact ⟨_, hmem, by rw [(h field hfield other hmem).mp hagree]⟩
  · rintro ⟨⟨key, other⟩, hmem, heq⟩
    rw [Prod.mk.injEq] at heq
    obtain ⟨rfl, hsorted⟩ := heq
    exact ⟨other, (Entries.find?_eq_some hb).mpr hmem,
      (h field hfield other hmem).mpr hsorted.symm⟩

/-- Proper types are equal up to the order of fields if they are equal when sorted. -/
theorem FieldType.equal_iff_sorted {a b : FieldType} (ha : a.Proper) (hb : b.Proper) :
    agree equalMarks a b = true ↔ a.sorted = b.sorted := by
  induction a using fields_induction generalizing b with
  | leaf a hf =>
      rw [agree_of_none hf, sorted_eq_sorted_iff, hf, Option.map_none, @eq_comm _ none,
        Option.map_eq_none_iff]
  | node a fields hf ih =>
      obtain ⟨had, hap⟩ := ha.fields hf
      rw [agree_of_some hf, sorted_eq_sorted_iff, hf, Option.map_some, @eq_comm _ (some _),
        Option.map_eq_some_iff]
      refine and_congr_right fun _ => exists_congr fun others => and_congr_right fun hothers => ?_
      obtain ⟨hbd, hbp⟩ := hb.fields hothers
      rw [@eq_comm _ (Shape.sorted others)]
      refine Shape.equal_iff_sorted_of had hbd fun field hfield other hother => ?_
      exact ih field hfield (hap field hfield) (hbp _ hother)

/-- **Equality up to the order of fields**: the sorted forms are equal. -/
theorem Shape.equal_iff_sorted {a b : Shape} (ha : a.Proper) (hb : b.Proper) :
    a.equal b = true ↔ a.sorted = b.sorted :=
  equal_iff_sorted_of ha.1 hb.1 fun field hfield _ hother =>
    FieldType.equal_iff_sorted (ha.2 field hfield) (hb.2 _ hother)

/-! ## Other kinds -/

namespace FieldType

mutual

/-- The type with the kind of every node, at every level, chosen anew. -/
def withKinds (kindOf : FieldType → TypeKind) : FieldType → FieldType
  | type@⟨_, label, optional, isArray, none⟩ => ⟨kindOf type, label, optional, isArray, none⟩
  | type@⟨_, label, optional, isArray, some fields⟩ =>
    ⟨kindOf type, label, optional, isArray, some (withKindsWithin kindOf fields)⟩

def withKindsWithin (kindOf : FieldType → TypeKind) :
    List (String × FieldType) → List (String × FieldType)
  | [] => []
  | (key, type) :: rest => (key, type.withKinds kindOf) :: withKindsWithin kindOf rest

end

variable {kindOf : FieldType → TypeKind}

theorem withKindsWithin_eq_map (fields : Shape) : withKindsWithin kindOf fields =
    fields.map fun field => (field.1, field.2.withKinds kindOf) := by
  induction fields with
  | nil => rw [withKindsWithin, List.map_nil]
  | cons field fields ih => rw [withKindsWithin, ih, List.map_cons]

end FieldType

/-- The shape with the kind of every node, at every level, chosen anew. -/
def Shape.withKinds (kindOf : FieldType → TypeKind) (shape : Shape) : Shape :=
  FieldType.withKindsWithin kindOf shape

section

variable {kindOf : FieldType → TypeKind}

theorem Shape.withKinds_eq_map (shape : Shape) : shape.withKinds kindOf =
    shape.map fun field => (field.1, field.2.withKinds kindOf) :=
  FieldType.withKindsWithin_eq_map shape

namespace FieldType

variable {a b : FieldType}

/-- Choosing kinds anew leaves everything else as it is. -/
theorem withKinds_eq (type : FieldType) : type.withKinds kindOf = ⟨kindOf type, type.label,
    type.optional, type.isArray, type.fields.map (Shape.withKinds kindOf)⟩ := by
  obtain ⟨kind, label, optional, isArray, fields?⟩ := type
  cases fields? <;> (rw [withKinds]; rfl)

theorem fields_withKinds (type : FieldType) :
    (type.withKinds kindOf).fields = type.fields.map (Shape.withKinds kindOf) := by
  rw [withKinds_eq]

theorem Proper.withKinds (h : a.Proper) : (a.withKinds kindOf).Proper := by
  induction h with
  | leaf hf => exact .leaf (by rw [fields_withKinds, hf, Option.map_none])
  | @node type fields hf hd _ ih =>
      have hfields : (type.withKinds kindOf).fields = some (Shape.withKinds kindOf fields) := by
        rw [fields_withKinds, hf, Option.map_some]
      refine .node hfields ?_ ?_
      · rw [Shape.withKinds_eq_map, Entries.distinct_map]
        exact hd
      · rw [Shape.withKinds_eq_map, List.forall_mem_map]
        exact ih

end FieldType

theorem Shape.Proper.withKinds {a : Shape} (h : a.Proper) : (a.withKinds kindOf).Proper := by
  rw [Shape.withKinds_eq_map]
  refine ⟨(Entries.distinct_map (FieldType.withKinds kindOf)).mpr h.1, ?_⟩
  rw [List.forall_mem_map]
  exact fun field hfield => (h.2 field hfield).withKinds

/-- A shape is the same with other kinds, if this holds of the types of its fields. -/
theorem Shape.same_withKinds_of {a : Shape} (ha : a.Distinct)
    (h : ∀ field ∈ a,
      FieldType.agree FieldType.sameMarks field.2 (field.2.withKinds kindOf) = true) :
    a.same (a.withKinds kindOf) = true := by
  rw [same, agree_iff, withKinds_eq_map, List.length_map]
  refine ⟨rfl, fun field hfield => ⟨_, ?_, h field hfield⟩⟩
  rw [Entries.find?_map, (Entries.find?_eq_some ha).mpr hfield, Option.map_some]

/-- Kinds do not matter to whether types are the same. -/
theorem FieldType.same_withKinds {type : FieldType} (h : type.Proper) :
    agree sameMarks type (type.withKinds kindOf) = true := by
  have hmarks : sameMarks type (type.withKinds kindOf) = true := by
    rw [withKinds_eq, sameMarks_iff]
    exact ⟨rfl, rfl, rfl⟩
  induction h with
  | leaf hf => exact (agree_of_none hf).mpr ⟨hmarks, by rw [fields_withKinds, hf, Option.map_none]⟩
  | @node type fields hf hd hp ih =>
      refine (agree_of_some hf).mpr ⟨hmarks, Shape.withKinds kindOf fields, ?_, ?_⟩
      · rw [fields_withKinds, hf, Option.map_some]
      · refine Shape.same_withKinds_of hd fun field hfield => ih field hfield ?_
        rw [withKinds_eq, sameMarks_iff]
        exact ⟨rfl, rfl, rfl⟩

/-- **Kinds do not count** when shapes are compared as rendered. -/
theorem Shape.same_withKinds {shape : Shape} (h : shape.Proper) :
    shape.same (shape.withKinds kindOf) = true :=
  same_withKinds_of h.1 fun field hfield => FieldType.same_withKinds (h.2 field hfield)

end

/-! ## Kinds, path by path -/

/-- The type at the end of a path of keys. -/
def FieldType.at? (type : FieldType) : List String → Option FieldType
  | [] => some type
  | key :: path => do
    let fields ← type.fields
    let inner ← Entries.find? key fields
    inner.at? path

/-- The type at the end of a path of keys, of which there has to be one. -/
def Shape.at? (shape : Shape) : List String → Option FieldType
  | [] => none
  | key :: path => do
    let type ← Entries.find? key shape
    type.at? path

/-- Wherever both types have something, the kinds are equal. -/
def FieldType.SameKinds (a b : FieldType) : Prop :=
  ∀ path f g, a.at? path = some f → b.at? path = some g → f.kind = g.kind

/-- Wherever both shapes have something, the kinds are equal. -/
def Shape.SameKinds (a b : Shape) : Prop :=
  ∀ path f g, a.at? path = some f → b.at? path = some g → f.kind = g.kind

/-- The kinds of shapes are equal if those of the fields behind every key are. -/
theorem Shape.sameKinds_iff {a b : Shape} : a.SameKinds b ↔
    ∀ key f g, Entries.find? key a = some f → Entries.find? key b = some g → f.SameKinds g := by
  constructor
  · intro h key f g hf hg path f' g' hf' hg'
    refine h (key :: path) f' g' ?_ ?_
    · rw [at?, hf]
      exact hf'
    · rw [at?, hg]
      exact hg'
  · intro h path f g hf hg
    cases path with
    | nil => cases hf
    | cons key path =>
        obtain ⟨f₀, hf₀, hf⟩ := Option.bind_eq_some_iff.mp hf
        obtain ⟨g₀, hg₀, hg⟩ := Option.bind_eq_some_iff.mp hg
        exact h key f₀ g₀ hf₀ hg₀ path f g hf hg

/-- The kinds of types are equal if the nodes' own kinds and those of their shapes are. -/
theorem FieldType.sameKinds_iff {a b : FieldType} : a.SameKinds b ↔ a.kind = b.kind ∧
    ∀ fields others, a.fields = some fields → b.fields = some others →
      Shape.SameKinds fields others := by
  constructor
  · intro h
    -- A path is empty, or it leads through a field: the type itself, and its fields.
    refine ⟨h [] a b rfl rfl, fun fields others hfields hothers path f g hf hg => ?_⟩
    cases path with
    | nil => cases hf
    | cons key path =>
        refine h (key :: path) f g ?_ ?_
        · rw [at?, hfields]
          exact hf
        · rw [at?, hothers]
          exact hg
  · rintro ⟨hkind, hfields⟩ path f g hf hg
    cases path with
    | nil =>
        cases hf
        cases hg
        exact hkind
    | cons key path =>
        obtain ⟨fields, hsome, hf⟩ := Option.bind_eq_some_iff.mp hf
        obtain ⟨others, hsome', hg⟩ := Option.bind_eq_some_iff.mp hg
        exact hfields fields others hsome hsome' (key :: path) f g hf hg

theorem Shape.equal_iff_same_of {a b : Shape} (ha : a.Distinct)
    (h : ∀ field ∈ a, ∀ other, FieldType.agree FieldType.equalMarks field.2 other = true ↔
      FieldType.agree FieldType.sameMarks field.2 other = true ∧ field.2.SameKinds other) :
    a.equal b = true ↔ a.same b = true ∧ a.SameKinds b := by
  rw [equal, same, agree_iff, agree_iff, sameKinds_iff]
  constructor
  · rintro ⟨hlength, hcounterpart⟩
    refine ⟨⟨hlength, fun field hfield => ?_⟩, fun key f g hf hg => ?_⟩
    · obtain ⟨other, hother, hagree⟩ := hcounterpart field hfield
      exact ⟨other, hother, ((h field hfield other).mp hagree).1⟩
    · have hmem := Entries.mem_of_find? hf
      obtain ⟨other, hother, hagree⟩ := hcounterpart _ hmem
      cases hother.symm.trans hg
      exact ((h _ hmem g).mp hagree).2
  · rintro ⟨⟨hlength, hcounterpart⟩, hkinds⟩
    refine ⟨hlength, fun field hfield => ?_⟩
    obtain ⟨other, hother, hagree⟩ := hcounterpart field hfield
    have hfound := (Entries.find?_eq_some ha).mpr hfield
    exact ⟨other, hother,
      (h field hfield other).mpr ⟨hagree, hkinds field.1 field.2 other hfound hother⟩⟩

/-- Types are equal if they are the same and have the same kinds. -/
theorem FieldType.equal_iff_same {a b : FieldType} (ha : a.Proper) :
    agree equalMarks a b = true ↔ agree sameMarks a b = true ∧ a.SameKinds b := by
  induction a using fields_induction generalizing b with
  | leaf a hf =>
      rw [agree_of_none hf, agree_of_none hf, equalMarks_iff, sameKinds_iff]
      simp only [hf, reduceCtorEq, false_implies, implies_true, and_true]
      tauto
  | node a fields hf ih =>
      obtain ⟨had, hap⟩ := ha.fields hf
      have hequal : ∀ others : Shape, Shape.agree equalMarks fields others = true ↔
          Shape.agree sameMarks fields others = true ∧ Shape.SameKinds fields others :=
        fun others => Shape.equal_iff_same_of had fun field hfield _ =>
          ih field hfield (hap field hfield)
      rw [agree_of_some hf, agree_of_some hf, equalMarks_iff, sameKinds_iff]
      constructor
      · rintro ⟨⟨hkind, hnode⟩, others, hothers, hagree⟩
        obtain ⟨hsame, hkinds⟩ := (hequal others).mp hagree
        refine ⟨⟨hnode, others, hothers, hsame⟩, hkind, fun fields' others' hfields hothers' => ?_⟩
        cases hf.symm.trans hfields
        cases hothers.symm.trans hothers'
        exact hkinds
      · rintro ⟨⟨hnode, others, hothers, hsame⟩, hkind, hkinds⟩
        exact ⟨⟨hkind, hnode⟩, others, hothers,
          (hequal others).mpr ⟨hsame, hkinds fields others hf hothers⟩⟩

/-- **Equality is sameness and equal kinds**, path by path. -/
theorem Shape.equal_iff_same {a b : Shape} (ha : a.Proper) :
    a.equal b = true ↔ a.same b = true ∧ a.SameKinds b :=
  equal_iff_same_of ha.1 fun field hfield _ => FieldType.equal_iff_same (ha.2 field hfield)

/-! ## Kinds forgotten -/

/-- The shape with all kinds forgotten, at every level. -/
def Shape.withoutKinds (shape : Shape) : Shape :=
  shape.withKinds fun _ => .unknown

theorem Shape.Proper.withoutKinds {a : Shape} (h : a.Proper) : a.withoutKinds.Proper :=
  h.withKinds

/-- If one kind is given to all nodes, it is the kind of every node. -/
theorem FieldType.kind_of_at?_withKinds {kind : TypeKind} {type f : FieldType} {path : List String}
    (h : (type.withKinds fun _ => kind).at? path = some f) : f.kind = kind := by
  induction path generalizing type with
  | nil =>
      rw [at?, withKinds_eq] at h
      cases h
      rfl
  | cons key path ih =>
      obtain ⟨fields, hfields, h⟩ := Option.bind_eq_some_iff.mp h
      obtain ⟨inner, hinner, h⟩ := Option.bind_eq_some_iff.mp h
      rw [fields_withKinds] at hfields
      obtain ⟨others, -, rfl⟩ := Option.map_eq_some_iff.mp hfields
      rw [Shape.withKinds_eq_map, Entries.find?_map] at hinner
      obtain ⟨other, -, rfl⟩ := Option.map_eq_some_iff.mp hinner
      exact ih h

/-- Where all kinds are forgotten they are equal. -/
theorem Shape.sameKinds_withoutKinds (a b : Shape) : a.withoutKinds.SameKinds b.withoutKinds := by
  have hkind : ∀ (shape : Shape) path f, shape.withoutKinds.at? path = some f →
      f.kind = .unknown := by
    intro shape path f h
    cases path with
    | nil => cases h
    | cons key path =>
        obtain ⟨type, htype, h⟩ := Option.bind_eq_some_iff.mp h
        rw [withoutKinds, withKinds_eq_map, Entries.find?_map] at htype
        obtain ⟨other, -, rfl⟩ := Option.map_eq_some_iff.mp htype
        exact FieldType.kind_of_at?_withKinds h
  intro path f g hf hg
  rw [hkind a path f hf, hkind b path g hg]

/-- **Sameness as rendered**: the shapes are equal once all kinds are forgotten. -/
theorem Shape.same_iff_equal_withoutKinds {a b : Shape} (ha : a.Proper) (hb : b.Proper) :
    a.same b = true ↔ a.withoutKinds.equal b.withoutKinds = true := by
  have hleft : a.same a.withoutKinds = true := same_withKinds ha
  have hright : b.same b.withoutKinds = true := same_withKinds hb
  have hback : a.withoutKinds.same a = true := same_symm ha ha.withoutKinds hleft
  have hback' : b.withoutKinds.same b = true := same_symm hb hb.withoutKinds hright
  rw [equal_iff_same ha.withoutKinds, and_iff_left (sameKinds_withoutKinds a b)]
  exact ⟨fun h => same_trans hback (same_trans h hright),
    fun h => same_trans hleft (same_trans h hback')⟩

/-! ## All together -/

/-- **Sameness is an equivalence with a canonical form.** Shapes are the same as rendered if they become one
once all kinds are forgotten and the fields are put in the order of their keys, at every level. They are
equal if they are the same and have the same kind at the end of every path. A shape may be looked up in any
store by every shape that is the same. -/
theorem sameness_canonical {a b : Shape} (ha : a.Proper) (hb : b.Proper) :
    (a.same a = true ∧ (a.same b = true → b.same a = true) ∧
      ∀ c : Shape, a.same b = true → b.same c = true → a.same c = true) ∧
    (a.same b = true ↔ a.withoutKinds.sorted = b.withoutKinds.sorted) ∧
    (a.equal b = true ↔ a.same b = true ∧ a.SameKinds b) ∧
    (a.same b = true → ∀ store : Store, store.position? a = store.position? b) := by
  refine ⟨⟨Shape.same_refl ha, Shape.same_symm ha hb, fun c => Shape.same_trans⟩, ?_,
    Shape.equal_iff_same ha, fun h store => Store.position?_congr ha hb h⟩
  rw [Shape.same_iff_equal_withoutKinds ha hb, Shape.equal_iff_sorted ha.withoutKinds hb.withoutKinds]

def journey : Shape :=
  [("to", ⟨.object, "object", false, false, some [("city", ⟨.string, "string", false, false, none⟩),
      ("zip", ⟨.number, "Zip", true, false, none⟩)]⟩),
    ("days", ⟨.number, "number", false, true, none⟩)]

/-- The journey with its fields the other way round, and other kinds. -/
def journeyBackwards : Shape :=
  [("days", ⟨.unknown, "number", false, true, none⟩),
    ("to", ⟨.boolean, "object", false, false, some [("zip", ⟨.string, "Zip", true, false, none⟩),
      ("city", ⟨.string, "string", false, false, none⟩)]⟩)]

theorem proper_journey : journey.Proper := by
  refine ⟨by decide, List.forall_mem_cons.mpr ⟨.node rfl (by decide) ?_, ?_⟩⟩
  · simp only [List.forall_mem_cons, List.not_mem_nil, false_implies, implies_true, and_true]
    exact ⟨.leaf rfl, .leaf rfl⟩
  · exact List.forall_mem_singleton.mpr (.leaf rfl)

theorem proper_journeyBackwards : journeyBackwards.Proper := by
  refine ⟨by decide, List.forall_mem_cons.mpr ⟨.leaf rfl, List.forall_mem_singleton.mpr ?_⟩⟩
  refine .node rfl (by decide) ?_
  simp only [List.forall_mem_cons, List.not_mem_nil, false_implies, implies_true, and_true]
  exact ⟨.leaf rfl, .leaf rfl⟩

theorem sameness_canonical_journey :
    journey.Proper ∧ journeyBackwards.Proper ∧ journey.same journeyBackwards = true ∧
      journey.withoutKinds.sorted = journeyBackwards.withoutKinds.sorted ∧
      ¬journey.SameKinds journeyBackwards := by
  have hsame : journey.same journeyBackwards = true := by decide
  obtain ⟨-, hcanonical, hequal, -⟩ := sameness_canonical proper_journey proper_journeyBackwards
  refine ⟨proper_journey, proper_journeyBackwards, hsame, hcanonical.mp hsame, fun hkinds => ?_⟩
  have hnot : journey.equal journeyBackwards = false := by decide
  rw [hequal.mpr ⟨hsame, hkinds⟩] at hnot
  cases hnot

end SampleTypes

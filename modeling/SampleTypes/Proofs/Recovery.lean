import SampleTypes.Proofs.Inference
import SampleTypes.Proofs.Kindless

/-!
# Kinds are recovered

The kind may be struck out of a saved type, at the type itself and at every type in it (`Json.strikeKinds`).
Only the members that say a kind are struck, and not those that stand for a field called `kind`.

From what is left of an inferred type everything is read back but the kinds of leaves: labels, markers, keys
in their order, and which nodes have a shape to be declared (`FieldType.profile`). An object with fields is
known by them, and nothing else is ever declared. A leaf is known by its label, as long as that is its
kind's own (`kinds_recovered`).
-/

namespace SampleTypes

open Json.Reader

/-! ## Kinds struck out -/

namespace Json

mutual

/-- A saved type with its kind struck out, and those of its fields. -/
def strikeKinds : Json → Json
  | .object members => .object (strikeFrom members)
  | value => value

/-- The members of a saved type. -/
def strikeFrom : List (String × Json) → List (String × Json)
  | [] => []
  | (key, value) :: members =>
    if key = "kind" then strikeFrom members
    else if key = "objectKeys" then (key, strikeWithin value) :: strikeFrom members
    else (key, value) :: strikeFrom members

/-- A saved shape with the kinds of its fields struck out. Its members are fields, whatever they are
called. -/
def strikeWithin : Json → Json
  | .object fields => .object (strikeFields fields)
  | value => value

/-- The fields of a saved shape. -/
def strikeFields : List (String × Json) → List (String × Json)
  | [] => []
  | (key, value) :: fields => (key, strikeKinds value) :: strikeFields fields

end

theorem strikeFields_eq_map (fields : List (String × Json)) :
    strikeFields fields = fields.map fun field => (field.1, field.2.strikeKinds) := by
  induction fields with
  | nil => rw [strikeFields, List.map_nil]
  | cons field fields ih => rw [strikeFields, ih, List.map_cons]

end Json

/-- Striking kinds from a saved shape leaves its form without kinds, if this holds of its fields. -/
theorem Shape.strikeWithin_toJson_of {shape : Shape}
    (h : ∀ field ∈ shape, field.2.toJson.strikeKinds = field.2.toJsonWithoutKinds) :
    shape.toJson.strikeWithin = shape.toJsonWithoutKinds := by
  rw [toJson, toJsonWithoutKinds, Json.strikeWithin, Json.strikeFields_eq_map,
    FieldType.membersOf_eq_map, FieldType.membersWithoutKinds_eq_map, List.map_map]
  refine congrArg Json.object (List.map_congr_left fun field hfield => ?_)
  rw [Function.comp_apply, h field hfield]

/-- Striking the kinds out of a saved type leaves its form without kinds. -/
theorem FieldType.strikeKinds_toJson (type : FieldType) :
    type.toJson.strikeKinds = type.toJsonWithoutKinds := by
  induction type using fields_induction with
  | leaf type hf =>
      obtain ⟨kind, label, optional, isArray, fields?⟩ := type
      cases hf
      rw [toJson, toJsonWithoutKinds]
      simp [Json.strikeKinds, Json.strikeFrom]
  | node type fields hf ih =>
      obtain ⟨kind, label, optional, isArray, fields?⟩ := type
      cases hf
      have hfields := Shape.strikeWithin_toJson_of ih
      rw [Shape.toJson, Shape.toJsonWithoutKinds] at hfields
      rw [toJson, toJsonWithoutKinds]
      simp [Json.strikeKinds, Json.strikeFrom, hfields]

theorem Shape.strikeWithin_toJson (shape : Shape) :
    shape.toJson.strikeWithin = shape.toJsonWithoutKinds :=
  strikeWithin_toJson_of fun field _ => field.2.strikeKinds_toJson

/-! ## What is read -/

namespace FieldType

/-- The type with the kinds that are read where none are saved. -/
def recovered (type : FieldType) : FieldType :=
  type.withKinds recoveredKind

/-- A type is read without kinds, if its saved form fits in the depth. -/
theorem restores_withoutKinds (depth : Nat) {type : FieldType} (hp : type.Proper) :
    Restores depth (reader depth) type.toJsonWithoutKinds type.recovered := by
  rw [← toJsonWithoutKinds_withKinds recoveredKind type]
  apply restores_readerWith_of_recovered type.kind_withKinds_recoveredKind
  intro inner fields _ hfields
  rw [fields_withKinds] at hfields
  obtain ⟨others, hothers, rfl⟩ := Option.map_eq_some_iff.mp hfields
  have hshape := Shape.restores_withoutKinds inner (hp.fields hothers)
  rw [← Shape.toJsonWithoutKinds_withKinds recoveredKind, Shape.toJsonWithoutKinds] at hshape
  exact hshape

end FieldType

/-! ## Nodes, path by path -/

section

variable {kindOf : FieldType → TypeKind}

/-- The nodes of a type with other kinds are its nodes, with other kinds. -/
theorem FieldType.at?_withKinds (type : FieldType) (path : List String) :
    (type.withKinds kindOf).at? path = (type.at? path).map (withKinds kindOf) := by
  induction path generalizing type with
  | nil => rfl
  | cons key path ih =>
      rw [at?, at?, fields_withKinds]
      cases type.fields with
      | none => rfl
      | some fields =>
          change (Entries.find? key (Shape.withKinds kindOf fields)).bind _ =
            ((Entries.find? key fields).bind _).map _
          rw [Shape.withKinds_eq_map, Entries.find?_map]
          cases Entries.find? key fields with
          | none => rfl
          | some inner => exact ih inner

theorem Shape.at?_withKinds (shape : Shape) (path : List String) :
    (shape.withKinds kindOf).at? path = (shape.at? path).map (FieldType.withKinds kindOf) := by
  cases path with
  | nil => rfl
  | cons key path =>
      rw [at?, at?, withKinds_eq_map, Entries.find?_map]
      cases Entries.find? key shape with
      | none => rfl
      | some inner => exact inner.at?_withKinds path

/-- A shape keeps the kinds that its fields' types keep. -/
theorem Shape.withKinds_eq_self_of {shape : Shape}
    (h : ∀ field ∈ shape, field.2.withKinds kindOf = field.2) : shape.withKinds kindOf = shape := by
  rw [withKinds_eq_map]
  refine (List.map_congr_left fun field hfield => ?_).trans (List.map_id shape)
  rw [h field hfield, id_eq]

theorem FieldType.withKinds_eq_self_of {type : FieldType} (hkind : kindOf type = type.kind)
    (hfields : type.fields.map (Shape.withKinds kindOf) = type.fields) :
    type.withKinds kindOf = type := by
  rw [withKinds_eq, hkind, hfields]
  cases type
  rfl

/-- A type stays as it is if every node is given the kind that it has. -/
theorem FieldType.withKinds_eq_self {type : FieldType} (hp : type.Proper)
    (h : ∀ path node, type.at? path = some node → kindOf node = node.kind) :
    type.withKinds kindOf = type := by
  induction type using fields_induction with
  | leaf type hf =>
      refine withKinds_eq_self_of (h [] type rfl) ?_
      rw [hf, Option.map_none]
  | node type fields hf ih =>
      obtain ⟨hd, hproper⟩ := hp.fields hf
      have hfields : Shape.withKinds kindOf fields = fields := by
        refine Shape.withKinds_eq_self_of fun field hfield => ?_
        -- A node of the field's type is one of the type, with a key more in its path.
        refine ih field hfield (hproper field hfield) fun path node hnode => ?_
        apply h (field.1 :: path)
        rw [at?, hf]
        show (Entries.find? field.1 fields).bind _ = some node
        rw [(Entries.find?_eq_some hd).mpr hfield]
        exact hnode
      refine withKinds_eq_self_of (h [] type rfl) ?_
      rw [hf, Option.map_some, hfields]

/-- If every node already has the kind that it would be given, nothing changes. -/
theorem Shape.withKinds_eq_self {shape : Shape} (hp : shape.Proper)
    (h : ∀ path node, shape.at? path = some node → kindOf node = node.kind) :
    shape.withKinds kindOf = shape := by
  refine withKinds_eq_self_of fun field hfield => ?_
  refine FieldType.withKinds_eq_self (hp.2 field hfield) fun path node hnode => ?_
  apply h (field.1 :: path)
  rw [at?, (Entries.find?_eq_some hp.1).mpr hfield]
  exact hnode

end

/-! ## Inferred nodes -/

/-- A type that is inferred, from a document or from a node, has the form of inferred types. -/
theorem Source.inferred_of_infer {source : Source} {policy : Policy} {type : FieldType}
    (h : source.infer policy = .ok type) : type.Inferred policy.labels := by
  cases source with
  | document value =>
      cases h
      exact value.inferred_infer policy
  | node graph root =>
      have hkeys : graph.KeysIn fun _ => True := fun _ _ _ _ _ => trivial
      exact (Graph.yields_observeWithin policy.keeps_inferred hkeys _ root).of_run h

namespace FieldType

/-- What is told of a node without saying its kind: label and markers, the keys of its fields in their order,
and whether it has a shape to be declared. -/
structure Profile where
  label : String
  optional : Bool
  isArray : Bool
  keys : Option (List String)
  declared : Bool
deriving DecidableEq

def profile (type : FieldType) : Profile :=
  ⟨type.label, type.optional, type.isArray, type.fields.map Entries.keys, type.nested?.isSome⟩

namespace Inferred

variable {labels : CustomLabels} {type node : FieldType} {path : List String}

/-- Every node of an inferred type is an inferred type. -/
theorem at? (h : type.Inferred labels) (hnode : type.at? path = some node) :
    node.Inferred labels := by
  induction path generalizing type with
  | nil =>
      cases hnode
      exact h
  | cons key path ih =>
      obtain ⟨fields, hfields, hnode⟩ := Option.bind_eq_some_iff.mp hnode
      obtain ⟨inner, hinner, hnode⟩ := Option.bind_eq_some_iff.mp hnode
      cases h with
      | leaf hf _ =>
          rw [hfields] at hf
          cases hf
      | node hf _ _ _ _ hi =>
          rw [hfields] at hf
          cases hf
          exact ih (hi _ (Entries.mem_of_find? hinner)) hnode

/-- The kind of a type with fields is recovered from them, and that of a leaf from its own label. -/
theorem recoveredKind_eq (h : type.Inferred labels) (hlabel : labels.label type.kind = type.kind.label) :
    type.recoveredKind = type.kind := by
  cases h with
  | leaf hf hl =>
      rw [recoveredKind, Saved.recoverKind]
      simp [hf, hl, hlabel]
  | node hf hk _ _ _ _ =>
      rw [recoveredKind, Saved.recoverKind]
      simp [hf, hk]

/-- Whatever kind a leaf is taken for, it is not declared; and whatever has fields is. -/
theorem profile_recovered (h : type.Inferred labels) : type.recovered.profile = type.profile := by
  have hfields : type.recovered.fields = type.fields.map (Shape.withKinds recoveredKind) :=
    fields_withKinds type
  have hkeys : type.recovered.fields.map Entries.keys = type.fields.map Entries.keys := by
    rw [hfields, Option.map_map]
    congr 1
    funext fields
    rw [Function.comp_apply, Shape.withKinds_eq_map, Entries.keys, List.map_map]
    rfl
  have hdeclared : type.recovered.nested?.isSome = type.nested?.isSome := by
    -- A leaf has nothing to declare, and what has fields is taken for the object that it is.
    cases h with
    | leaf hf _ =>
        rw [hf] at hfields
        rw [nested?_of_fields_eq_none hf, nested?_of_fields_eq_none hfields]
    | @node _ fields hf hk _ hne _ _ =>
        have hkind : type.recovered.kind = .object := by
          rw [recovered, withKinds_eq, recoveredKind, Saved.recoverKind, hf]
          rfl
        rw [hf] at hfields
        have hsome : type.nested? = some fields := nested?_eq_some.mpr ⟨hk, hf, hne⟩
        have hsome' : type.recovered.nested? = some (Shape.withKinds recoveredKind fields) := by
          refine nested?_eq_some.mpr ⟨hkind, hfields, ?_⟩
          rw [Shape.withKinds_eq_map]
          exact fun hnil => hne (List.map_eq_nil_iff.mp hnil)
        rw [hsome, hsome']
        rfl
  rw [profile, profile, hkeys, hdeclared, recovered, withKinds_eq]

end Inferred

end FieldType

theorem Shape.Inferred.at? {labels : CustomLabels} {shape : Shape} {node : FieldType}
    {path : List String} (h : shape.Inferred labels) (hnode : shape.at? path = some node) :
    node.Inferred labels := by
  cases path with
  | nil => cases hnode
  | cons key path =>
      obtain ⟨type, htype, hnode⟩ := Option.bind_eq_some_iff.mp hnode
      exact (h.2 _ (Entries.mem_of_find? htype)).at? hnode

/-! ## All nodes -/

/-- Nodes behind one path have one profile. -/
def SameProfiles (a b : List String → Option FieldType) : Prop :=
  ∀ path, (a path).map FieldType.profile = (b path).map FieldType.profile

/-- Every node's kind goes by its own label. -/
def CustomLabels.DefaultAt (labels : CustomLabels) (nodes : List String → Option FieldType) : Prop :=
  ∀ path node, nodes path = some node → labels.label node.kind = node.kind.label

/-- Recovering kinds keeps the profiles of inferred nodes. -/
theorem sameProfiles_of_recovered {labels : CustomLabels} {a b : List String → Option FieldType}
    (hinferred : ∀ path node, a path = some node → node.Inferred labels)
    (hrecovered : ∀ path, b path = (a path).map FieldType.recovered) : SameProfiles a b := by
  intro path
  rw [hrecovered path]
  cases hnode : a path with
  | none => rfl
  | some node =>
      show some node.profile = some node.recovered.profile
      rw [(hinferred path node hnode).profile_recovered]

/-- With default labels the label of a node tells its kind. -/
theorem recoveredKind_of_default {labels : CustomLabels} {nodes : List String → Option FieldType}
    (hinferred : ∀ path node, nodes path = some node → node.Inferred labels)
    (hdefault : labels.DefaultAt nodes) :
    ∀ path node, nodes path = some node → node.recoveredKind = node.kind := by
  intro path node hnode
  exact (hinferred path node hnode).recoveredKind_eq (hdefault path node hnode)

/-- What is read in place of a type is the same, node by node, and equal where labels are the kinds' own. -/
structure FieldType.Recovers (labels : CustomLabels) (type read : FieldType) : Prop where
  same : agree sameMarks type read = true
  profiles : SameProfiles type.at? read.at?
  eq_of_default : labels.DefaultAt type.at? → read = type

/-- What is read in place of a shape is the same, with its keys in their order and node by node, and equal
where labels are the kinds' own. -/
structure Shape.Recovers (labels : CustomLabels) (shape read : Shape) : Prop where
  same : shape.same read = true
  keys_eq : Entries.keys read = Entries.keys shape
  profiles : SameProfiles shape.at? read.at?
  eq_of_default : labels.DefaultAt shape.at? → read = shape

variable {labels : CustomLabels}

theorem FieldType.Inferred.recovers {type : FieldType} (h : type.Inferred labels) :
    type.Recovers labels type.recovered where
  same := same_withKinds h.proper
  profiles := sameProfiles_of_recovered (fun _ _ => h.at?) type.at?_withKinds
  eq_of_default hdefault :=
    withKinds_eq_self h.proper (recoveredKind_of_default (fun _ _ => h.at?) hdefault)

theorem Shape.Inferred.recovers {shape : Shape} (h : shape.Inferred labels) :
    shape.Recovers labels shape.recovered where
  same := same_recovered h.proper
  keys_eq := by
    rw [recovered, withKinds_eq_map, Entries.keys, List.map_map]
    rfl
  profiles := sameProfiles_of_recovered (fun _ _ => h.at?) shape.at?_withKinds
  eq_of_default hdefault :=
    withKinds_eq_self h.proper (recoveredKind_of_default (fun _ _ => h.at?) hdefault)

/-- **Kinds are recovered.** Whatever a type or a shape was inferred from, and whatever labels were chosen, its
saved form is read with all kinds struck out, unless it is nested too deep. What is read is the same, it has the
same profile at every node, and it is equal if no kind goes by another label than its own. -/
theorem kinds_recovered (policy : Policy) (source : Source) :
    (∀ type, source.infer policy = .ok type →
      (type.toJson.strikeKinds.depth ≤ depthLimit →
        ∃ read, readSaved FieldType.reader type.toJson.strikeKinds.saved = .ok read ∧
          type.Recovers policy.labels read) ∧
      (depthLimit < type.toJson.strikeKinds.depth →
        IsTooDeep (readSaved FieldType.reader type.toJson.strikeKinds.saved))) ∧
    ∀ shape, source.inferShape policy = .ok shape →
      (shape.toJson.strikeWithin.depth ≤ depthLimit →
        ∃ read, readSaved Shape.reader shape.toJson.strikeWithin.saved = .ok read ∧
          shape.Recovers policy.labels read) ∧
      (depthLimit < shape.toJson.strikeWithin.depth →
        IsTooDeep (readSaved Shape.reader shape.toJson.strikeWithin.saved)) := by
  constructor
  · intro type htype
    have hinferred := Source.inferred_of_infer htype
    have hrestores := FieldType.restores_withoutKinds depthLimit hinferred.proper
    rw [type.strikeKinds_toJson]
    exact ⟨fun hdepth => ⟨type.recovered, readSaved_eq_ok hrestores hdepth, hinferred.recovers⟩,
      fun hdeep => isTooDeep_readSaved hrestores (Nat.not_le_of_lt hdeep)⟩
  · intro shape hshape
    have hinferred := Source.inferred_of_inferShape hshape
    have hrestores := Shape.restores_withoutKinds depthLimit hinferred.proper
    rw [shape.strikeWithin_toJson]
    exact ⟨fun hdepth => ⟨shape.recovered, readSaved_eq_ok hrestores hdepth, hinferred.recovers⟩,
      fun hdeep => isTooDeep_readSaved hrestores (Nat.not_le_of_lt hdeep)⟩

/-- A vehicle with a field called `kind`, an object without entries, and a list of objects. -/
def vehicle : Json :=
  .object [("kind", .string "van"), ("wheels", .number (.ofInt 4)), ("extras", .object []),
    ("trips", .array [.object [("kind", .null)]])]

/-- Numbers go by the label of strings, and unknown values by that of objects. -/
def borrowedLabels : CustomLabels where
  number := some "string"
  unknown := some "object"

/-- The type of the vehicle, where numbers and unknown values go by the given labels. -/
def vehicleType (number unknown : String) : FieldType :=
  ⟨.object, "object", false, false, some [("kind", ⟨.string, "string", false, false, none⟩),
    ("wheels", ⟨.number, number, false, false, none⟩),
    ("extras", ⟨.object, "object", false, false, none⟩),
    ("trips", ⟨.object, "object", false, true, some [("kind", ⟨.unknown, unknown, true, false, none⟩)]⟩)]⟩

/-- Under borrowed labels the type is read as one that is the same, and under default labels as it is. -/
theorem kinds_recovered_vehicle :
    (∃ read, readSaved FieldType.reader (vehicleType "string" "object").toJson.strikeKinds.saved =
        .ok read ∧ (vehicleType "string" "object").Recovers borrowedLabels read) ∧
      readSaved FieldType.reader (vehicleType "number" "unknown").toJson.strikeKinds.saved =
        .ok (vehicleType "number" "unknown") := by
  have hborrowed : (Source.document vehicle).infer { labels := borrowedLabels } =
      .ok (vehicleType "string" "object") := rfl
  have hdefault : (Source.document vehicle).infer {} = .ok (vehicleType "number" "unknown") := rfl
  obtain ⟨htypes, -⟩ := kinds_recovered { labels := borrowedLabels } (.document vehicle)
  obtain ⟨htypes', -⟩ := kinds_recovered {} (.document vehicle)
  refine ⟨(htypes _ hborrowed).1 (by decide), ?_⟩
  obtain ⟨read, hread, hrecovers⟩ := (htypes' _ hdefault).1 (by decide)
  have hlabels : ∀ kind, CustomLabels.label {} kind = kind.label := by
    intro kind
    cases kind <;> rfl
  rw [hread, hrecovers.eq_of_default fun _ node _ => hlabels node.kind]

end SampleTypes

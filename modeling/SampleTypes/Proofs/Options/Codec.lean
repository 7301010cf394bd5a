import SampleTypes.Options.Codec
import SampleTypes.Proofs.Store.Codec

/-!
# Options are restored

Saved options are read back from any of their members, in any order and under any of the names that a
member answers to (`Options.restores_selection`). What is left out keeps its default, so the declarations
to start from are those that were saved whenever they are among the members (`Options.Selection.seed_fill`).
With all members written, the options are the same again (`Options.restores`).
-/

namespace SampleTypes

open Json.Reader

/-- A text or `null`. -/
theorem restores_ofText? (depth : Nat) (expected : String) (wish : Option String) :
    Restores depth (nullable (text expected)) (Json.ofText? wish) wish := by
  cases wish with
  | none => exact restores_nullable_none depth _
  | some s => exact (restores_text depth expected s).nullable (Json.opens_string s) rfl (by decide)

namespace CustomLabels

theorem unambiguous_fields : Unambiguous fields := by
  change (["string", "number", "boolean", "object", "unknown"] : List String).Nodup
  decide

/-- The values of saved labels, with what they do to the draft. -/
def savedValues (labels : CustomLabels) : List (Json × (CustomLabels → CustomLabels)) := [
  (Json.ofText? labels.string, fun l => { l with string := labels.string }),
  (Json.ofText? labels.number, fun l => { l with number := labels.number }),
  (Json.ofText? labels.boolean, fun l => { l with boolean := labels.boolean }),
  (Json.ofText? labels.object, fun l => { l with object := labels.object }),
  (Json.ofText? labels.unknown, fun l => { l with unknown := labels.unknown })]

theorem restores (depth : Nat) (labels : CustomLabels) :
    Restores depth (reader depth) labels.toJson labels := by
  refine restores_record (selects_along unambiguous_fields labels.savedValues ?_)
    "struct CustomTypes" {} fun inner hinner => ?_
  · exact fun _ h => absurd h List.not_mem_nil
  · simp only [savedValues, fields, Written.along, List.zipWith_cons_cons,
      List.zipWith_nil_right, List.forall_mem_cons, List.not_mem_nil, false_implies, implies_true,
      and_true]
    exact ⟨(restores_ofText? inner "a string" labels.string).map _,
      (restores_ofText? inner "a string" labels.number).map _,
      (restores_ofText? inner "a string" labels.boolean).map _,
      (restores_ofText? inner "a string" labels.object).map _,
      (restores_ofText? inner "a string" labels.unknown).map _⟩

end CustomLabels

namespace Collision

theorem restores (depth : Nat) (collision : Collision) :
    Restores depth (reader depth) collision.toJson collision := by
  cases collision <;> exact restores_variant (by decide)

end Collision

namespace Options

theorem unambiguous_fields : Unambiguous fields := by
  change (["customTypes", "forceOptional", "initialInterfaceName", "useTypeAlias", "useTypes",
    "renderStatementTerminators", "renderSemis", "useStore", "outputPath", "outputFilename",
    "skipFileWrite", "returnTextOnly", "returnFileString", "returnConfigurations", "logSuccess",
    "nameCollision"] : List String).Nodup
  decide

/-- The values of saved options' members, with what they do to the draft. -/
def savedValues (options : Options) : List (Json × (Options → Options)) := [
  (options.policy.labels.toJson, fun o =>
    { o with policy := { o.policy with labels := options.policy.labels } }),
  (.bool options.policy.forceOptional, fun o =>
    { o with policy := { o.policy with forceOptional := options.policy.forceOptional } }),
  (Json.ofText? options.rootWish, fun o => { o with rootWish := options.rootWish }),
  (.bool options.mode.typeAlias, fun o =>
    { o with mode := { o.mode with typeAlias := options.mode.typeAlias } }),
  (.bool options.mode.terminators, fun o =>
    { o with mode := { o.mode with terminators := options.mode.terminators } }),
  (match options.seed with
    | some store => store.toJson
    | none => .null, fun o => { o with seed := options.seed }),
  (Json.ofText? options.delivery.directory, fun o =>
    { o with delivery := { o.delivery with directory := options.delivery.directory } }),
  (Json.ofText? options.delivery.filename, fun o =>
    { o with delivery := { o.delivery with filename := options.delivery.filename } }),
  (.bool options.delivery.skipWrite, fun o =>
    { o with delivery := { o.delivery with skipWrite := options.delivery.skipWrite } }),
  (.bool options.delivery.textOnly, fun o =>
    { o with delivery := { o.delivery with textOnly := options.delivery.textOnly } }),
  (.bool options.delivery.asStore, fun o =>
    { o with delivery := { o.delivery with asStore := options.delivery.asStore } }),
  (.bool options.delivery.logSuccess, fun o =>
    { o with delivery := { o.delivery with logSuccess := options.delivery.logSuccess } }),
  (options.collision.toJson, fun o => { o with collision := options.collision })]

def savedMembers (options : Options) : List (Written Options) :=
  Written.along fields options.savedValues

theorem toJson_eq_object (options : Options) :
    options.toJson = .object (options.savedMembers.map Written.text) := rfl

/-- Filled in one after the other, the members that are saved give back the options. -/
theorem fill_savedMembers (options : Options) : Written.fill {} options.savedMembers = options := by
  obtain ⟨⟨labels, force⟩, wish, mode, seed, delivery, collision⟩ := options
  simp only [savedMembers, savedValues, fields, Written.along, List.zipWith_cons_cons,
    List.zipWith_nil_right, Written.fill, List.foldl_cons, List.foldl_nil, Field.written]

/-- The store in the options, if there is one, has proper shapes only. -/
def Proper (options : Options) : Prop :=
  ∀ store, options.seed = some store → store.Proper

variable {options : Options}

/-- The seed is restored, and so is its absence. -/
theorem restores_seed (depth : Nat) (hp : options.Proper) :
    Restores depth (nullable (Store.reader depth))
      (match options.seed with
        | some store => store.toJson
        | none => .null) options.seed := by
  cases hseed : options.seed with
  | none => exact restores_nullable_none depth _
  | some store =>
      exact (Store.restores depth (hp store hseed)).nullable (Json.opens_array _) rfl (by decide)

/-- Every member is read back on its own. -/
theorem restores_member (depth : Nat) (hp : options.Proper) :
    ∀ member ∈ options.savedMembers,
      Restores depth (member.field.value depth) member.json member.put := by
  have hlabels := CustomLabels.restores depth options.policy.labels
  have hseed := restores_seed depth hp
  have hcollision := Collision.restores depth options.collision
  have hflag := restores_bool depth
  have hname := restores_ofText? depth "a string"
  have hpath := restores_ofText? depth "path string"
  simp only [savedMembers, savedValues, fields, Written.along, List.zipWith_cons_cons,
    List.zipWith_nil_right, List.forall_mem_cons, List.not_mem_nil, false_implies, implies_true,
    and_true]
  exact ⟨hlabels.map _, (hflag _).map _, (hname _).map _, (hflag _).map _, (hflag _).map _,
    hseed.map _, (hpath _).map _, (hname _).map _, (hflag _).map _, (hflag _).map _,
    (hflag _).map _, (hflag _).map _, hcollision.map _⟩

/-! ## Some of the members -/

/-- Some members of saved options, in any order, each under one of the names that it answers to. -/
structure Selection (options : Options) (ms : List (Written Options)) : Prop where
  saved : ∀ written ∈ ms, ∃ member ∈ options.savedMembers,
    ∃ key ∈ member.field.name :: member.field.spellings, written = { member with key := key }
  nodup : (ms.map (·.field.name)).Nodup

variable {ms : List (Written Options)}

theorem field_of_mem_savedMembers {member : Written Options} (h : member ∈ options.savedMembers) :
    member.field ∈ fields := by
  refine List.mem_of_mem_take (i := options.savedValues.length) ?_
  rw [← Written.fields_along]
  exact List.mem_map_of_mem h

/-- A selection of the members that are saved is one of the fields. -/
theorem Selection.selects (h : options.Selection ms) : Selects fields ms where
  found written hwritten := by
    obtain ⟨member, hmember, key, hkey, rfl⟩ := h.saved written hwritten
    exact unambiguous_fields.find? (field_of_mem_savedMembers hmember) hkey
  nodup := h.nodup
  complete field hfield hrequired := by
    have hfree : ∀ field ∈ fields, field.required = false := by
      simp only [fields, List.forall_mem_cons, List.not_mem_nil, false_implies, implies_true,
        and_true]
      exact ⟨rfl, rfl, rfl, rfl, rfl, rfl, rfl, rfl, rfl, rfl, rfl, rfl, rfl⟩
    rw [hfree field hfield] at hrequired
    cases hrequired

/-- **Options are read from any of their members**, if the members fit in the depth. -/
theorem restores_selection (depth : Nat) (hp : options.Proper) (h : options.Selection ms) :
    Restores depth (reader depth) (.object (ms.map Written.text)) (Written.fill {} ms) := by
  refine restores_record h.selects "struct BuildOptions" {} fun inner _ written hwritten => ?_
  obtain ⟨member, hmember, key, -, rfl⟩ := h.saved written hwritten
  exact restores_member inner hp member hmember

theorem map_name_savedMembers (options : Options) :
    options.savedMembers.map (·.field.name) = fields.map (·.name) := rfl

theorem useStore_mem_savedMembers (options : Options) :
    "useStore" ∈ options.savedMembers.map (·.field.name) := by
  rw [map_name_savedMembers]
  decide

theorem selection_savedMembers (options : Options) : options.Selection options.savedMembers where
  saved member hmember := by
    refine ⟨member, hmember, member.field.name, List.mem_cons_self, ?_⟩
    rw [← Written.key_along member hmember]
  nodup := by
    rw [map_name_savedMembers]
    exact unambiguous_fields.nodup_names

/-- Options are restored, if their saved form fits in the depth. -/
theorem restores (depth : Nat) (hp : options.Proper) :
    Restores depth (reader depth) options.toJson options := by
  have h := restores_selection depth hp options.selection_savedMembers
  rwa [fill_savedMembers, ← toJson_eq_object] at h

/-- Only one of the members says what to start from. -/
theorem seed_put : ∀ member ∈ options.savedMembers, ∀ o : Options,
    (member.put o).seed = if member.field.name = "useStore" then options.seed else o.seed := by
  simp only [savedMembers, savedValues, fields, Written.along, List.zipWith_cons_cons,
    List.zipWith_nil_right, List.forall_mem_cons, List.not_mem_nil, false_implies, implies_true,
    and_true]
  refine ⟨?_, ?_, ?_, ?_, ?_, ?_, ?_, ?_, ?_, ?_, ?_, ?_, ?_⟩ <;> exact fun _ => rfl

/-- What the members make of options starts from the saved store as soon as that is one of them. -/
theorem Selection.seed_fill (h : options.Selection ms) :
    (Written.fill {} ms).seed =
      if "useStore" ∈ ms.map (·.field.name) then options.seed else none := by
  -- Members may come in any order, so the draft before them is arbitrary.
  have hfold : ∀ o : Options, (Written.fill o ms).seed =
      if "useStore" ∈ ms.map (·.field.name) then options.seed else o.seed := by
    obtain ⟨hsaved, -⟩ := h
    induction ms with
    | nil => exact fun o => rfl
    | cons written ms ih =>
        intro o
        rw [List.forall_mem_cons] at hsaved
        obtain ⟨⟨member, hmember, key, -, rfl⟩, hrest⟩ := hsaved
        have hput := seed_put member hmember o
        rw [Written.fill, List.foldl_cons, ← Written.fill, ih hrest, hput, List.map_cons]
        by_cases hlater : "useStore" ∈ ms.map (·.field.name)
        · rw [if_pos hlater, if_pos (List.mem_cons_of_mem _ hlater)]
        · rw [if_neg hlater]
          simp only [List.mem_cons, hlater, or_false, eq_comm]
  exact hfold {}

end Options

end SampleTypes

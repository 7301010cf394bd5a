import SampleTypes.Proofs.Build.Depth
import SampleTypes.Proofs.Saved

/-!
# Builds go on from a saved store

A store that builds have left may be saved and read back, on its own or as the declarations that options
start from. It comes back as it was, down to the order of the fields in its shapes, and further builds
do what they would have done without the detour (`Store.Restored`).

This holds up to a limit. The builds themselves take any value, but saved forms are only read up to 127
containers deep, and every level of fields takes two of them. So a store is read back exactly if no
value has more than 62 levels of fields (`saved_store_restored_iff`). Beyond that it is refused, although
documents with twice as many levels are read and built (`deep_document_not_restored`).
-/

namespace SampleTypes

open Json.Reader

/-! ## Saved stores -/

/-- The store is read back from its own saved form and from that of options that start from it, with
all members or with some of them, and builds that start from the restored options are builds into the
store. -/
structure Store.Restored (store : Store) : Prop where
  alone : readSaved Store.reader store.toJson.saved = .ok store
  within : ∀ options : Options, options.seed = some store →
    Options.read options.toJson.saved = .ok options
  selected : ∀ (options : Options) ms, options.seed = some store → options.Selection ms →
    "useStore" ∈ ms.map (·.field.name) →
    ∃ restored, Options.read (Json.object (ms.map Written.text)).saved = .ok restored ∧
      restored.seed = some store ∧
      ∀ source, buildText source restored =
        (buildInto source restored store).map fun built => built.store.render

/-- The store is refused as nested too deep, on its own and among the members of options. -/
structure Store.Refused (store : Store) : Prop where
  alone : IsTooDeep (readSaved Store.reader store.toJson.saved)
  within : ∀ options : Options, options.seed = some store →
    IsTooDeep (Options.read options.toJson.saved)
  selected : ∀ (options : Options) ms, options.seed = some store → options.Selection ms →
    "useStore" ∈ ms.map (·.field.name) →
    IsTooDeep (Options.read (Json.object (ms.map Written.text)).saved)

variable {store : Store} {steps : List BuildStep}

/-- Builds start from the store in the options. -/
theorem buildText_of_seed {options : Options} (h : options.seed = some store) (source : Source) :
    buildText source options =
      (buildInto source options store).map fun built => built.store.render := by
  rw [buildText, Options.start, h, Option.getD_some]
  rfl

theorem Options.proper_of_seed {options : Options} (hp : store.Proper)
    (h : options.seed = some store) : options.Proper := by
  intro other hother
  rw [h] at hother
  cases hother
  exact hp

/-- A store within the limit, with room for the options around it. -/
theorem Store.restored_of_depth_le (hp : store.Proper) (h : store.toJson.depth ≤ depthLimit - 1) :
    store.Restored := by
  have hselected : ∀ (options : Options) ms, options.seed = some store → options.Selection ms →
      "useStore" ∈ ms.map (·.field.name) →
      Options.read (Json.object (ms.map Written.text)).saved = .ok (Written.fill {} ms) := by
    intro options ms hseed hselection hstore
    refine readSaved_eq_ok ?_ ((hselection.depth_le_iff hseed hstore (by decide)).mpr h)
    exact Options.restores_selection depthLimit (Options.proper_of_seed hp hseed) hselection
  refine ⟨readSaved_eq_ok (Store.restores depthLimit hp) (by omega), ?_, ?_⟩
  · intro options hseed
    have hall := hselected options _ hseed options.selection_savedMembers
      options.useStore_mem_savedMembers
    rwa [Options.fill_savedMembers, ← Options.toJson_eq_object] at hall
  · intro options ms hseed hselection hstore
    have hfill : (Written.fill {} ms).seed = some store := by
      rw [hselection.seed_fill, if_pos hstore, hseed]
    exact ⟨_, hselected options ms hseed hselection hstore, hfill, buildText_of_seed hfill⟩

/-- A store beyond the limit. -/
theorem Store.refused_of_lt_depth (hp : store.Proper) (h : depthLimit < store.toJson.depth) :
    store.Refused := by
  have hselected : ∀ (options : Options) ms, options.seed = some store → options.Selection ms →
      "useStore" ∈ ms.map (·.field.name) →
      IsTooDeep (Options.read (Json.object (ms.map Written.text)).saved) := by
    intro options ms hseed hselection hstore
    -- Whatever the other members are, the store's depth decides.
    refine isTooDeep_readSaved
      (Options.restores_selection depthLimit (Options.proper_of_seed hp hseed) hselection) ?_
    intro hdepth
    have hle : store.toJson.depth ≤ depthLimit - 1 :=
      (hselection.depth_le_iff hseed hstore (by decide)).mp hdepth
    omega
  refine ⟨isTooDeep_readSaved (Store.restores depthLimit hp) (by omega), ?_, hselected⟩
  intro options hseed
  have hall := hselected options _ hseed options.selection_savedMembers
    options.useStore_mem_savedMembers
  rwa [← Options.toJson_eq_object] at hall

/-! ## Levels of fields -/

/-- How many levels of fields the values of saved stores may have: each of them takes two containers,
the list of declarations and a declaration are two more, and options are the last one. -/
def levelLimit : Nat :=
  (depthLimit - 3) / 2

example : levelLimit = 62 := rfl

/-- No value has more levels of fields than can be read back. -/
def Shallow (steps : List BuildStep) : Prop :=
  ∀ step ∈ steps, ∀ shape, step.Infers shape → shape.levels ≤ levelLimit

theorem Store.Exact.proper (h : store.Exact (Demanded steps)) : store.Proper :=
  fun d hd => (h.sound d hd).proper_regular.1

/-- After shallow builds the saved store can be read again. -/
theorem Store.Exact.restored (h : store.Exact (Demanded steps)) (hs : Shallow steps) :
    store.Restored := by
  have hiff : store.toJson.depth ≤ depthLimit - 1 ↔ Shallow steps :=
    h.depth_toJson_le_iff (by decide)
  exact restored_of_depth_le h.proper (hiff.mpr hs)

/-- One build that is not shallow is enough to have the saved store refused. -/
theorem Store.Exact.refused (h : store.Exact (Demanded steps)) (hs : ¬Shallow steps) :
    store.Refused := by
  have hiff : store.toJson.depth ≤ depthLimit ↔ Shallow steps :=
    h.depth_toJson_le_iff (by decide)
  exact refused_of_lt_depth h.proper (Nat.lt_of_not_le (mt hiff.mp hs))

/-- **Builds go on from a saved store exactly within the limit.** If every value has a shape, the builds
succeed, and the store that they leave is read back as it was, alone and from options, as long as the
limit is kept; else it is refused, alone and in options. -/
theorem saved_store_restored_iff (steps : List BuildStep)
    (h : ∀ step ∈ steps, ∃ shape, step.Infers shape) :
    ∃ roots store, buildAll steps .empty = .ok (roots, store) ∧
      (Shallow steps → store.Restored) ∧ (¬Shallow steps → store.Refused) := by
  obtain ⟨roots, store, hbuild⟩ := exists_buildAll h .empty
  have hexact := Store.exact_of_buildAll hbuild
  exact ⟨roots, store, hbuild, hexact.restored, hexact.refused⟩

theorem saved_store_restored_iff_commonShape :
    (∀ step ∈ commonShape, ∃ shape, step.Infers shape) ∧ Shallow commonShape ∧
      ∃ roots store, buildAll commonShape .empty = .ok (roots, store) ∧ store.Restored := by
  have hinfers : ∀ step ∈ commonShape, ∃ shape, step.Infers shape := by
    simp only [commonShape, List.forall_mem_cons, List.not_mem_nil, IsEmpty.forall_iff,
      implies_true, and_true]
    exact ⟨⟨_, rfl⟩, ⟨_, rfl⟩⟩
  have hshallow : Shallow commonShape := by
    simp only [Shallow, commonShape, List.forall_mem_cons, List.not_mem_nil, IsEmpty.forall_iff,
      implies_true, and_true]
    constructor
    · intro shape hshape
      cases hshape
      decide
    · intro shape hshape
      cases hshape
      decide
  obtain ⟨roots, store, hbuild, hrestored, -⟩ := saved_store_restored_iff commonShape hinfers
  exact ⟨hinfers, hshallow, roots, store, hbuild, hrestored hshallow⟩

/-! ## Documents that are too deep to come back -/

/-- Objects in one another, each with a single member. -/
def nestedObjects : Nat → Json
  | 0 => .null
  | n + 1 => .object [("a", nestedObjects n)]

theorem levels_infer_nestedObjects (policy : Policy) (n : Nat) :
    ((nestedObjects n).infer policy).levels = n := by
  induction n with
  | zero => rw [nestedObjects, Json.infer]; rfl
  | succ n ih =>
      rw [nestedObjects, Json.infer, Json.inferMembers, Json.inferMembers]
      change max ((nestedObjects n).infer policy).levels 0 + 1 = n + 1
      rw [ih, Nat.max_zero]

theorem levels_of_inferShape_nestedObjects {policy : Policy} {n : Nat} {shape : Shape}
    (h : (nestedObjects (n + 1)).inferShape policy = .ok shape) : shape.levels = n + 1 := by
  cases h
  rw [Json.inferMembers, Json.inferMembers]
  change max ((nestedObjects n).infer policy).levels 0 + 1 = n + 1
  rw [levels_infer_nestedObjects, Nat.max_zero]

/-- Such a document is read, as long as it is not too deep itself. -/
theorem restores_nestedObjects (depth n : Nat) :
    Restores depth (value depth) (nestedObjects n) (nestedObjects n) := by
  induction n generalizing depth with
  | zero => exact restores_null depth
  | succ n ih =>
      refine restores_object ?_ fun inner _ member hmember => ?_
      · exact List.pairwise_singleton _ "a"
      · rw [List.mem_singleton.mp hmember]
        exact ih inner

theorem depth_nestedObjects (n : Nat) : (nestedObjects n).depth = n := by
  induction n with
  | zero => rfl
  | succ n ih =>
      rw [nestedObjects, Json.depth, Json.depthOfMembers, Json.depthOfMembers, ih, Nat.max_zero]

theorem readDocument_nestedObjects {n : Nat} (h : n ≤ depthLimit) :
    readDocument (nestedObjects n).compact = .ok (nestedObjects n) := by
  have hvalue := (restores_nestedObjects depthLimit n []).1 (by rwa [depth_nestedObjects])
  have hdocument : Reads document ((nestedObjects n).bytes ++ []) (nestedObjects n) [] :=
    hvalue.bind (reads_endOfText.bind (reads_pure _ []))
  rw [List.append_nil, ← Json.saved_eq_bytes] at hdocument
  rw [readDocument, Json.read, ← Json.saved, hdocument.run]
  rfl

/-- A document with 63 objects in one another is read and built, and yet its store does not come back. -/
theorem deep_document_not_restored :
    readDocument (nestedObjects 63).compact = .ok (nestedObjects 63) ∧
      ∃ roots store, buildAll [⟨.document (nestedObjects 63), {}⟩] .empty = .ok (roots, store) ∧
        store.Refused := by
  have hinfers : ∀ step ∈ [BuildStep.mk (.document (nestedObjects 63)) {}],
      ∃ shape, step.Infers shape := List.forall_mem_singleton.mpr ⟨_, rfl⟩
  have hdeep : ¬Shallow [BuildStep.mk (.document (nestedObjects 63)) {}] := by
    intro hs
    obtain ⟨shape, hshape⟩ := hinfers _ List.mem_cons_self
    have hlevels := hs _ List.mem_cons_self shape hshape
    rw [levels_of_inferShape_nestedObjects hshape] at hlevels
    exact absurd hlevels (by decide)
  obtain ⟨roots, store, hbuild⟩ := exists_buildAll hinfers .empty
  exact ⟨readDocument_nestedObjects (by decide), roots, store, hbuild,
    (Store.exact_of_buildAll hbuild).refused hdeep⟩

end SampleTypes

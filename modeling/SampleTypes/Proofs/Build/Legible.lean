import SampleTypes.Proofs.Build.Sequence
import SampleTypes.Proofs.Rendering
import SampleTypes.Proofs.Synthesis.Names

/-!
# Stores are read back from their text

Keys, names and chosen labels go into declarations as they are. If no mark is in any of them, no mark gets
into names that are put together from keys, as capitals and numbers add none. So every declaration can be
told from the text of the store: what form it has, its name, and for each field its key, its markers and
its label (`store_read_back`). Stores with the same text then agree on all that (`Store.outline`).

The invariant is `Store.Spells`: a declaration is legible and its text is that of its fields' tuples, in
the mode of the build that made it.
-/

namespace SampleTypes

open Rendering

/-! ## Legible names -/

namespace Naming

/-- No capital is a mark. -/
private theorem capitalsAvoid_marks : Text.capitalsAvoid marks = true := by
  decide +kernel

/-- Names are derived from keys without adding a character that would break a text. -/
theorem legible_derived {chain : List String} (h : ∀ key ∈ chain, Legible key) :
    Legible (derived chain) := by
  intro c hc hmark
  obtain ⟨key, hkey, hmem⟩ := exists_of_mem_derived capitalsAvoid_marks hc hmark
  exact h key hkey c hmem hmark

/-- A legible wish stays legible when it is made a candidate. -/
theorem legible_candidate {wish : Option String} (h : ∀ name, wish = some name → Legible name) :
    Legible (candidate wish) := by
  intro c hc
  rcases mem_of_mem_candidate hc with hfallback | ⟨name, hname, hmem⟩
  · have hlegible : Legible fallback := by decide
    exact hlegible c hfallback
  · exact h name hname c hmem

/-- A claimed name is as legible as the wish: only digits are appended to it. -/
theorem legible_claim {name : String} (h : Legible name) (policy : Collision)
    (taken : List String) : Legible (claim policy taken name) := by
  intro c hc hmark
  rcases mem_of_mem_claim policy taken hc with hmem | hdigit
  · exact h c hmem hmark
  · have hnone : marks.all (!·.isDigit) = true := rfl
    have hmarks := List.all_eq_true.mp hnone c hmark
    rw [hdigit] at hmarks
    cases hmarks

end Naming

/-! ## Legible declarations -/

namespace Store

variable {store later : Store} {mode : RenderMode} {d : Declaration}

/-- The declaration is written in the mode from its fields' tuples in the store, and no mark is in its name,
in a key, or in a field's own label. -/
structure Spells (store : Store) (mode : RenderMode) (d : Declaration) : Prop where
  covers : store.Covers d.shape
  text_eq : d.text = FieldTuple.text mode d.name (store.tuples d.shape)
  name : Legible d.name
  fields : ∀ field ∈ d.shape, Legible field.1 ∧ Legible field.2.label

theorem Extends.spells (he : later.Extends store) (h : store.Spells mode d) :
    later.Spells mode d where
  covers := he.covers h.covers
  text_eq := by rw [he.tuples_eq h.covers, h.text_eq]
  name := h.name
  fields := h.fields

/-- What stands for a field's type is legible, be it a label or a name. -/
theorem Spells.legibleTuple (h : store.Spells mode d)
    (hnames : ∀ e ∈ store.entries, Legible e.name) :
    ∀ tuple ∈ store.tuples d.shape, LegibleTuple tuple := by
  intro tuple htuple
  obtain ⟨field, hfield, rfl⟩ := List.mem_map.mp htuple
  obtain ⟨hkey, hlabel⟩ := h.fields field hfield
  refine ⟨hkey, ?_⟩
  cases hn : field.2.nested? with
  | none =>
      rw [tuple, labelOf_of_none hn]
      exact hlabel
  | some nested =>
      obtain ⟨target, hfind⟩ := h.covers field hfield nested hn
      rw [tuple, labelOf_of_some hn hfind]
      exact hnames target (mem_of_find? hfind)

/-- The name and the fields of every declaration, in order. -/
def outline (store : Store) : List (String × List FieldTuple) :=
  store.entries.map fun d => (d.name, store.tuples d.shape)

end Store

namespace Synthesis

/-- What is asked of a shape and its context: no mark may be in the fields that lead there, in the wish for a
name, or in the shape. -/
structure Writable (labels : CustomLabels) (mode : RenderMode) (context : Context) (shape : Shape) :
    Prop where
  mode_eq : context.mode = mode
  chain : ∀ key ∈ context.chain, Legible key
  wish : Legible (Naming.candidate context.name)
  inferred : shape.Inferred labels
  keys : shape.KeysIn Legible

/-- What is written from a context can be written from the context of each of its fields. -/
theorem Writable.child {labels : CustomLabels} {mode : RenderMode} {context : Context}
    {shape nested : Shape} {field : String × FieldType} (h : Writable labels mode context shape)
    (hfield : field ∈ shape) (hn : field.2.nested? = some nested) :
    Writable labels mode (context.child field.1) nested := by
  have hchain : ∀ key ∈ context.chain ++ [field.1], Legible key := by
    intro key hkey
    rcases List.mem_append.mp hkey with hkey | hkey
    · exact h.chain key hkey
    · rw [List.mem_singleton.mp hkey]
      exact (h.keys field hfield).1
  refine ⟨h.mode_eq, hchain, ?_, h.inferred.of_nested hfield hn, h.keys.of_nested hfield hn⟩
  refine Naming.legible_candidate fun name hname => ?_
  rw [← Option.some.inj hname]
  exact Naming.legible_derived hchain

/-- Every declaration that is added for a shape without marks is legible. -/
theorem tracks_spells (policy : Collision) {labels : CustomLabels} (mode : RenderMode)
    (hlabels : ∀ kind, Legible (labels.label kind)) :
    TracksIn policy (Writable labels mode) (Adds fun store _ d => store.Spells mode d) := by
  refine tracksIn_adds Writable.child (fun he hspells => he.spells hspells) ?_
  intro context shape s lines s₁ hwritable hemits
  have hname := Naming.legible_claim hwritable.wish policy s.taken
  refine ⟨hemits.covers, hwritable.mode_eq ▸ hemits.text_eq, hname, fun field hfield => ?_⟩
  refine ⟨(hwritable.keys field hfield).1, ?_⟩
  rw [(hwritable.inferred.2 field hfield).label_eq]
  exact hlabels field.2.kind

end Synthesis

/-! ## Builds -/

/-- No mark is in a key of the value, in the name wished for it, or in a label that is chosen. -/
structure BuildStep.Legible (step : BuildStep) : Prop where
  keys : step.source.KeysIn Rendering.Legible
  root : ∀ name, step.options.rootWish = some name → Rendering.Legible name
  labels : ∀ kind label, step.options.policy.labels.get? kind = some label →
    Rendering.Legible label

namespace BuildStep

variable {step : BuildStep} {shape : Shape}

theorem Legible.label (h : step.Legible) (kind : TypeKind) :
    Rendering.Legible (step.options.policy.labels.label kind) := by
  rw [CustomLabels.label]
  cases hlabel : step.options.policy.labels.get? kind with
  | none =>
      show Rendering.Legible kind.label
      cases kind <;> decide
  | some label => exact h.labels kind label hlabel

theorem Legible.rootName (h : step.Legible) : Rendering.Legible step.options.rootName := by
  have hfallback : Rendering.Legible Naming.fallback := by decide
  rw [Options.rootName]
  cases hwish : step.options.rootWish with
  | none => exact hfallback
  | some name =>
      show Rendering.Legible (if name.isEmpty then Naming.fallback else name)
      split
      · exact hfallback
      · exact h.root name hwish

/-- Every declaration that a build adds is legible. -/
theorem Legible.adds (h : step.Legible) (hinfers : step.Infers shape) (store : Store) :
    Synthesis.Adds (fun store _ d => store.Spells step.options.mode d) (Synthesis.start store)
      (declareRoot shape step.options store).2 := by
  have hwritable : Synthesis.Writable step.options.policy.labels step.options.mode
      (.root step.options.rootName step.options.mode) shape := by
    refine ⟨rfl, nofun, ?_, hinfers.inferred, Source.keysIn_of_inferShape h.keys hinfers⟩
    refine Naming.legible_candidate fun name hname => ?_
    rw [← Option.some.inj hname]
    exact h.rootName
  exact Synthesis.declare_trackIn (Synthesis.tracks_spells _ step.options.mode h.label)
    hinfers.inferred.proper hwritable (Synthesis.start store)

end BuildStep

/-- The step's build is the one that adds the declaration at the index. -/
def AddedBy (steps : List BuildStep) (step : BuildStep) (index : Nat) : Prop :=
  ∃ earlier later, steps = earlier ++ step :: later ∧
    (buildEach earlier .empty).length ≤ index ∧
    index < (buildEach (earlier ++ [step]) .empty).length

section

variable {steps : List BuildStep} {step : BuildStep} {index : Nat} {d : Declaration}

theorem AddedBy.concat (h : AddedBy steps step index) (last : BuildStep) :
    AddedBy (steps ++ [last]) step index := by
  obtain ⟨earlier, later, rfl, hle, hlt⟩ := h
  exact ⟨earlier, later ++ [last], List.append_assoc _ _ _, hle, hlt⟩

/-- Every declaration is legible, in the mode of the build that added it. -/
theorem spells_buildEach (h : ∀ step ∈ steps, step.Legible)
    (hget : (buildEach steps .empty).get? index = some d) :
    ∃ step, AddedBy steps step index ∧ (buildEach steps .empty).Spells step.options.mode d := by
  -- From the end, as it is the last build that may have added the declaration.
  induction steps using List.reverseRecOn with
  | nil => cases hget
  | append_singleton steps last ih =>
      rw [List.forall_mem_append, List.forall_mem_singleton] at h
      obtain ⟨hsteps, hlast⟩ := h
      have hlength : index < (buildEach (steps ++ [last]) .empty).length :=
        (List.getElem?_eq_some_iff.mp hget).1
      cases hinfer : last.source.inferShape last.options.policy with
      | error fault =>
          have hsame : buildEach (steps ++ [last]) .empty = buildEach steps .empty := by
            rw [buildEach_append, buildEach_cons_of_error hinfer]
            rfl
          rw [hsame] at hget ⊢
          obtain ⟨step, hadded, hspells⟩ := ih hsteps hget
          exact ⟨step, hadded.concat last, hspells⟩
      | ok shape =>
          have hinfers : last.Infers shape := hinfer
          have hafter : buildEach (steps ++ [last]) .empty =
              (declareInto shape last.options (buildEach steps .empty)).store := by
            rw [buildEach_append, buildEach_cons_of_infers hinfer]
            rfl
          by_cases hlt : index < (buildEach steps .empty).length
          · -- What was there before the last build stays as it is.
            rw [hafter] at hget ⊢
            have hextends := declareInto_extends hinfers.inferred.proper last.options
              (buildEach steps .empty)
            obtain ⟨step, hadded, hspells⟩ := ih hsteps (hextends.get?_of_lt hlt hget)
            exact ⟨step, hadded.concat last, hextends.spells hspells⟩
          · have hle := Nat.le_of_not_lt hlt
            have hadds := (hlast.adds hinfers (buildEach steps .empty)).2 index d hle
            refine ⟨last, ⟨steps, [], rfl, hle, hlength⟩, ?_⟩
            rw [hafter] at hget ⊢
            exact hadds hget

/-- Name and fields of every declaration are read back from its text. -/
theorem readDeclaration_of_buildEach (h : ∀ step ∈ steps, step.Legible)
    (hget : (buildEach steps .empty).get? index = some d) :
    ∃ step, AddedBy steps step index ∧
      [] ∉ linesOf d.text ∧
      readDeclaration d.text =
        some ⟨step.options.mode.typeAlias, d.name, (buildEach steps .empty).tuples d.shape⟩ := by
  have hnames : ∀ e ∈ (buildEach steps .empty).entries, Legible e.name := by
    intro e he
    obtain ⟨position, hposition⟩ := List.mem_iff_getElem?.mp he
    obtain ⟨_, -, hspells⟩ := spells_buildEach h hposition
    exact hspells.name
  obtain ⟨step, hadded, hspells⟩ := spells_buildEach h hget
  have htuples := hspells.legibleTuple hnames
  refine ⟨step, hadded, ?_, ?_⟩
  · rw [hspells.text_eq]
    exact nil_not_mem_linesOf_text hspells.name htuples
  · rw [hspells.text_eq]
    exact readDeclaration_text hspells.name htuples

end

/-- **Stores are read back from their text.** Values are built, one after the other, into an empty store,
with any options, and no mark is in their keys, in the names wished for, or in chosen labels. Then the text
of the store is cut at its blank lines into the declarations, in order. From each of them its header's form
is read back, as the build that added it has chosen it, and its name, and for every field its key, its
markers and its label: the name of the declaration at the position of the field's shape, or the field's own
label if it has no shape. So another such store with the same text has the same names and the same fields. -/
theorem store_read_back {steps : List BuildStep} (h : ∀ step ∈ steps, step.Legible) :
    cut (buildEach steps .empty).render = (buildEach steps .empty).entries.map (·.text) ∧
    (∀ index d, (buildEach steps .empty).get? index = some d →
      (∃ step, AddedBy steps step index ∧ readDeclaration d.text =
        some ⟨step.options.mode.typeAlias, d.name, (buildEach steps .empty).tuples d.shape⟩) ∧
      ∀ field ∈ d.shape,
        (field.2.nested? = none → (buildEach steps .empty).labelOf field.2 = field.2.label) ∧
        ∀ nested, field.2.nested? = some nested → ∃ position target,
          (buildEach steps .empty).position? nested = some position ∧
          (buildEach steps .empty).get? position = some target ∧
          (buildEach steps .empty).labelOf field.2 = target.name) ∧
    ∀ others : List BuildStep, (∀ other ∈ others, other.Legible) →
      (buildEach others .empty).render = (buildEach steps .empty).render →
      (buildEach others .empty).outline = (buildEach steps .empty).outline := by
  have hcut : ∀ steps : List BuildStep, (∀ step ∈ steps, step.Legible) →
      cut (buildEach steps .empty).render = (buildEach steps .empty).entries.map (·.text) := by
    intro steps h
    refine cut_render fun d hd => ?_
    obtain ⟨index, hget⟩ := List.mem_iff_getElem?.mp hd
    obtain ⟨_, -, hblank, -⟩ := readDeclaration_of_buildEach h hget
    exact hblank
  -- The outline is what is read from the parts of the text.
  have houtline : ∀ steps : List BuildStep, (∀ step ∈ steps, step.Legible) →
      (buildEach steps .empty).outline.map some =
        (cut (buildEach steps .empty).render).map fun text =>
          (readDeclaration text).map fun reading => (reading.name, reading.fields) := by
    intro steps h
    rw [hcut steps h, Store.outline, List.map_map, List.map_map]
    refine List.map_congr_left fun d hd => ?_
    obtain ⟨index, hget⟩ := List.mem_iff_getElem?.mp hd
    obtain ⟨_, -, -, hread⟩ := readDeclaration_of_buildEach h hget
    show some _ = (readDeclaration d.text).map _
    rw [hread]
    rfl
  refine ⟨hcut steps h, fun index d hget => ⟨?_, fun field hfield => ⟨?_, ?_⟩⟩, ?_⟩
  · obtain ⟨step, hadded, -, hread⟩ := readDeclaration_of_buildEach h hget
    exact ⟨step, hadded, hread⟩
  · exact Store.labelOf_of_none
  · intro nested hn
    obtain ⟨_, -, hspells⟩ := spells_buildEach h hget
    obtain ⟨target, hfind⟩ := hspells.covers field hfield nested hn
    obtain ⟨position, hposition, htarget⟩ := Store.find?_eq_some_iff.mp hfind
    exact ⟨position, target, hposition, htarget, Store.labelOf_of_some hn hfind⟩
  · intro others hothers hrender
    refine List.map_injective_iff.mpr (fun _ _ => Option.some.inj) ?_
    rw [houtline others hothers, houtline steps h, hrender]

/-- A document with a nested one, as an interface, and another one with lines that end in semicolons, as a
type. -/
def birdThenNest : List BuildStep :=
  [⟨.document (.object [("bird", .object [("species", .string "wren")])]), {}⟩,
    ⟨.document (.object [("eggs", .array [.number (.natural 1)]), ("ring", .null)]),
      { rootWish := some "Nest", mode := ⟨true, true⟩,
        policy := { labels := { number := some "int" } } }⟩]

theorem store_read_back_birdThenNest :
    (∀ step ∈ birdThenNest, step.Legible) ∧
      cut (buildEach birdThenNest .empty).render =
        (buildEach birdThenNest .empty).entries.map (·.text) ∧
      ∃ d step, (buildEach birdThenNest .empty).get? 2 = some d ∧ AddedBy birdThenNest step 2 ∧
        readDeclaration d.text = some ⟨step.options.mode.typeAlias, "Nest",
          [⟨"eggs", false, "int", true⟩, ⟨"ring", true, "unknown", false⟩]⟩ := by
  have hlegible : ∀ step ∈ birdThenNest, step.Legible := by
    simp only [birdThenNest, List.forall_mem_cons, List.not_mem_nil, IsEmpty.forall_iff,
      implies_true, and_true]
    refine ⟨⟨?_, nofun, ?_⟩, ⟨?_, ?_, ?_⟩⟩
    · refine .object (by decide) (List.forall_mem_singleton.mpr (.object (by decide) ?_))
      exact List.forall_mem_singleton.mpr (.string _)
    · rintro (_ | _ | _ | _ | _) label hlabel <;> cases hlabel
    · refine .object (by decide) (List.forall_mem_cons.mpr ⟨.array ?_, ?_⟩)
      · exact List.forall_mem_singleton.mpr (.number _)
      · exact List.forall_mem_singleton.mpr .null
    · rintro name hname
      cases hname
      decide
    · rintro (_ | _ | _ | _ | _) label hlabel <;> cases hlabel
      decide
  obtain ⟨hcut, hread, -⟩ := store_read_back hlegible
  have houtline : ((buildEach birdThenNest .empty).get? 2).map
      (fun d => (d.name, (buildEach birdThenNest .empty).tuples d.shape)) =
        some ("Nest", [⟨"eggs", false, "int", true⟩, ⟨"ring", true, "unknown", false⟩]) := by
    decide +kernel
  obtain ⟨d, hget, hd⟩ := Option.map_eq_some_iff.mp houtline
  obtain ⟨⟨step, hadded, hfields⟩, -⟩ := hread 2 d hget
  rw [(Prod.mk.inj hd).1, (Prod.mk.inj hd).2] at hfields
  exact ⟨hlegible, hcut, d, step, hget, hadded, hfields⟩

end SampleTypes

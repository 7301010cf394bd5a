import SampleTypes.Proofs.Build.Choices
import SampleTypes.Proofs.Kindless

/-!
# What counts of the declarations to start from

Builds start from a store. All that they look at in it are the names of its declarations, and their shapes as
far as they are rendered: kinds, the order of fields and the texts do not count (`Store.SameOutline`). Builds
into two stores with the same outline are followed side by side, and add the same declarations behind what is
there (`outline_of_seed_suffices`). So a saved store may lose its kinds, and its texts may be edited.
-/

namespace SampleTypes

namespace Store

variable {a b c x y : Store}

/-- Declaration by declaration, the names are equal and the shapes are the same as rendered. -/
def SameOutline (a b : Store) : Prop :=
  List.Forall₂ (fun d e => d.name = e.name ∧ d.shape.same e.shape = true) a.entries b.entries

/-- Having one outline is transitive: every declaration is compared with its counterpart. -/
theorem SameOutline.trans (h : a.SameOutline b) (h' : b.SameOutline c) : a.SameOutline c := by
  obtain ⟨entries⟩ := a
  obtain ⟨others⟩ := b
  obtain ⟨thirds⟩ := c
  change List.Forall₂ _ entries others at h
  change List.Forall₂ _ others thirds at h'
  change List.Forall₂ _ entries thirds
  induction h generalizing thirds with
  | nil => exact h'
  | cons hde _ ih =>
      cases h' with
      | cons hef h' =>
          exact .cons ⟨hde.1.trans hef.1, Shape.same_trans hde.2 hef.2⟩ (ih _ h')

theorem SameOutline.names_eq (h : a.SameOutline b) : a.names = b.names := by
  rw [names, names, ← List.forall₂_eq_eq_eq, List.forall₂_map_left_iff, List.forall₂_map_right_iff]
  exact h.imp fun _ _ hde => hde.1

/-- A look-up of a shape finds the same name. -/
theorem SameOutline.found_eq (h : a.SameOutline b) (ha : a.Proper) (hb : b.Proper) (shape : Shape) :
    (a.find? shape).map (·.name) = (b.find? shape).map (·.name) := by
  obtain ⟨entries⟩ := a
  obtain ⟨others⟩ := b
  change ∀ d ∈ entries, d.shape.Proper at ha
  change ∀ d ∈ others, d.shape.Proper at hb
  change List.Forall₂ _ entries others at h
  rw [find?, find?]
  induction h with
  | nil => rfl
  | @cons d e _ _ hde _ ih =>
      rw [List.forall_mem_cons] at ha hb
      have hsame : d.shape.same shape = e.shape.same shape :=
        Shape.same_congr_left ha.1 hb.1 hde.2
      rw [List.find?_cons, List.find?_cons, hsame]
      cases e.shape.same shape with
      | true => exact congrArg some hde.1
      | false => exact ih ha.2 hb.2

/-- The same declarations have been added behind two stores. -/
def GrownAlike (a b x y : Store) : Prop :=
  ∃ added, x.entries = a.entries ++ added ∧ y.entries = b.entries ++ added

theorem GrownAlike.refl (a b : Store) : GrownAlike a b a b :=
  ⟨[], (List.append_nil _).symm, (List.append_nil _).symm⟩

theorem GrownAlike.push (h : GrownAlike a b x y) (d : Declaration) :
    GrownAlike a b (x.push d) (y.push d) := by
  obtain ⟨added, hx, hy⟩ := h
  refine ⟨added ++ [d], ?_, ?_⟩
  · rw [entries_push, hx, List.append_assoc]
  · rw [entries_push, hy, List.append_assoc]

theorem GrownAlike.names_eq (h : GrownAlike a b x y) (houtline : a.SameOutline b) :
    x.names = y.names := by
  obtain ⟨added, hx, hy⟩ := h
  have hnames := houtline.names_eq
  rw [names, names] at hnames ⊢
  rw [hx, hy, List.map_append, List.map_append, hnames]

/-- Stores that have grown alike from one outline find declarations of one name. -/
theorem GrownAlike.found_eq (h : GrownAlike a b x y) (houtline : a.SameOutline b)
    (ha : a.Proper) (hb : b.Proper) (shape : Shape) :
    (x.find? shape).map (·.name) = (y.find? shape).map (·.name) := by
  obtain ⟨added, hx, hy⟩ := h
  have hfound := houtline.found_eq ha hb shape
  rw [find?, find?] at hfound ⊢
  rw [hx, hy, List.find?_append, List.find?_append, Option.map_or, Option.map_or, hfound]

end Store

/-! ## One build -/

namespace Synthesis

/-- The states differ in nothing but the stores that they began with. -/
structure Reseeded (a b : Store) (s r : Synthesis) : Prop where
  taken_eq : s.taken = r.taken
  events_eq : s.events = r.events
  grown : Store.GrownAlike a b s.store r.store

/-- Of what a synthesis begins with, the outline counts. -/
theorem reseeded_simulates {a b : Store} (ha : a.Proper) (hb : b.Proper) (h : a.SameOutline b)
    (policy : Collision) : Simulates policy Eq Eq (Reseeded a b) where
  name_eq hC := hC ▸ rfl
  child hC _ := hC ▸ rfl
  nil := rfl
  line hC hL _ _ _ := by rw [hC, hL]
  taken_eq hs := hs.taken_eq
  found_eq hs := hs.grown.found_eq h ha hb
  note hs event := by
    refine ⟨hs.taken_eq, ?_, hs.grown⟩
    rw [note, note, hs.events_eq]
  opened := by
    rintro context _ s r rfl hs
    refine ⟨?_, ?_, ?_⟩
    · rw [taken_opened, taken_opened, hs.taken_eq]
    · rw [events_opened, events_opened, hs.taken_eq, hs.events_eq]
    · rw [store_opened, store_opened]
      exact hs.grown
  emit := by
    rintro context _ s r s' r' lines _ rfl hs hs' rfl shape
    -- With the same names taken, the same declaration is added on both sides.
    have hdeclared : s.declared policy context shape lines = r.declared policy context shape lines := by
      rw [declared, declared, hs.taken_eq]
    rw [hdeclared]
    refine ⟨hs'.taken_eq, ?_, hs'.grown.push _⟩
    rw [emit, emit, note, note, hs'.events_eq]

end Synthesis

/-- The builds return the same name and note the same events, and have added the same declarations behind
two stores. -/
structure BuiltAlike (a b : Store) (x y : Built) : Prop where
  root_eq : x.root = y.root
  events_eq : x.events = y.events
  grown : Store.GrownAlike a b x.store y.store

/-- Builds of one shape on such stores add the same declarations and return the same name. -/
theorem declareInto_builtAlike {a b x y : Store} (ha : a.Proper) (hb : b.Proper)
    (h : a.SameOutline b) (hgrown : Store.GrownAlike a b x y) (shape : Shape) (options : Options) :
    BuiltAlike a b (declareInto shape options x) (declareInto shape options y) := by
  have hstart : Synthesis.Reseeded a b (.start x) (.start y) :=
    ⟨hgrown.names_eq h, rfl, hgrown⟩
  obtain ⟨hname, hend⟩ := Synthesis.declare_simulate
    (Synthesis.reseeded_simulates ha hb h options.collision) rfl hstart shape
  exact ⟨hname, hend.events_eq, hend.grown⟩

/-! ## Many builds -/

/-- Whatever is built, and with whatever options: builds into either store return the same names or fail for
the same reasons, and add the same declarations behind what is there. -/
def Store.Interchangeable (a b : Store) : Prop :=
  ∀ steps : List BuildStep,
    List.Forall₂ (Agree (BuiltAlike a b)) (buildResults steps a) (buildResults steps b) ∧
      Store.GrownAlike a b (buildEach steps a) (buildEach steps b)

/-- Seeds of one outline can be used in place of one another. -/
theorem Store.SameOutline.interchangeable {a b : Store} (h : a.SameOutline b) (ha : a.Proper)
    (hb : b.Proper) : a.Interchangeable b := by
  intro steps
  have hsame : List.Forall₂ BuildStep.SameSample steps steps :=
    List.forall₂_same.mpr fun _ _ => ⟨rfl, rfl⟩
  have hruns := side_by_side
    (R := fun steps others x y => steps = others ∧ GrownAlike a b x y)
    (Q := BuiltAlike a b) ?_ ?_ hsame ⟨rfl, GrownAlike.refl a b⟩
  · exact ⟨hruns.1, hruns.2.2⟩
  · rintro step other steps others x y fault ⟨heq, hgrown⟩ -
    exact ⟨(List.cons_eq_cons.mp heq).2, hgrown⟩
  · rintro step other steps others x y shape ⟨heq, hgrown⟩ -
    obtain ⟨rfl, rfl⟩ := List.cons_eq_cons.mp heq
    have halike := declareInto_builtAlike ha hb h hgrown shape step.options
    exact ⟨halike, rfl, halike.grown⟩

/-! ## Saved stores -/

/-- What is read where no kinds are saved has the outline of what was saved. -/
theorem Store.sameOutline_recovered {store : Store} (hp : store.Proper) :
    store.SameOutline store.recovered := by
  rw [SameOutline, recovered, List.forall₂_map_right_iff, List.forall₂_same]
  exact fun d hd => ⟨rfl, Shape.same_recovered (hp d hd)⟩

theorem Store.Proper.recovered {store : Store} (hp : store.Proper) : store.recovered.Proper := by
  rw [Store.Proper, Store.recovered, List.forall_mem_map]
  exact fun d hd => (hp d hd).recovered

/-- **Only the outline counts** of the declarations that builds start from: two stores with the same outline
are interchangeable. So are a store and what is read from the saved form of one that has the same outline,
be it saved with kinds or without. -/
theorem outline_of_seed_suffices {a b : Store} (ha : a.Proper) (hb : b.Proper)
    (h : a.SameOutline b) : a.Interchangeable b ∧
      ∀ json ∈ [b.toJson, b.toJsonWithoutKinds], json.depth ≤ Json.Reader.depthLimit →
        ∃ restored, readSaved Store.reader json.saved = .ok restored ∧ a.Interchangeable restored := by
  refine ⟨h.interchangeable ha hb, List.forall_mem_cons.mpr ⟨fun hdepth => ?_, ?_⟩⟩
  · exact ⟨b, readSaved_eq_ok (Store.restores _ hb) hdepth, h.interchangeable ha hb⟩
  · refine List.forall_mem_singleton.mpr fun hdepth => ?_
    refine ⟨b.recovered, readSaved_eq_ok (Store.restores_withoutKinds _ hb) hdepth, ?_⟩
    exact (h.trans (Store.sameOutline_recovered hb)).interchangeable ha hb.recovered

/-- A store with a journey, and one with the same journey told in another way. -/
def journeyStore : Store :=
  ⟨[⟨"Journey", journey, ""⟩]⟩

def journeyBackwardsStore : Store :=
  ⟨[⟨"Journey", journeyBackwards, "// edited"⟩]⟩

theorem outline_of_seed_suffices_journey :
    journeyStore.Proper ∧ journeyBackwardsStore.Proper ∧
      journeyStore.SameOutline journeyBackwardsStore ∧
      ∃ restored, readSaved Store.reader journeyBackwardsStore.toJsonWithoutKinds.saved =
        .ok restored ∧ journeyStore.Interchangeable restored := by
  have hp : journeyStore.Proper := List.forall_mem_singleton.mpr proper_journey
  have hp' : journeyBackwardsStore.Proper := List.forall_mem_singleton.mpr proper_journeyBackwards
  have houtline : journeyStore.SameOutline journeyBackwardsStore :=
    .cons ⟨rfl, by decide⟩ .nil
  obtain ⟨-, hsaved⟩ := outline_of_seed_suffices hp hp' houtline
  exact ⟨hp, hp', houtline, hsaved _ (List.mem_cons_of_mem _ List.mem_cons_self) (by decide)⟩

end SampleTypes

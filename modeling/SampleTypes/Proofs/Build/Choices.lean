import SampleTypes.Proofs.Build.Sequence
import SampleTypes.Proofs.Synthesis.Names
import SampleTypes.Proofs.Synthesis.Plan
import SampleTypes.Proofs.Synthesis.Simulation

/-!
# Choices of names and of syntax

The same values are built twice, one after the other and from the same store, with options that classify
values alike. What may differ is how names are chosen and how declarations are written. The two runs are
followed side by side (`side_by_side`), and three things are said about them in `choices_keep_structure`:

* every build yields as many declarations of the same shapes in both runs, or fails in both for the same
  reason;
* if only the syntax is chosen differently, names agree too;
* if only the treatment of taken names is chosen differently, and no name that is wished for is taken, both
  runs leave one and the same store.
-/

namespace SampleTypes

/-! ## The same names, whatever is written -/

namespace Synthesis

variable {s r : Synthesis}

/-- The states differ in nothing but texts and events. -/
structure Alike (s r : Synthesis) : Prop where
  names_eq : s.store.names = r.store.names
  shapes_eq : s.store.shapes = r.store.shapes
  taken_eq : s.taken = r.taken

theorem Alike.find?_eq (h : s.Alike r) (shape : Shape) :
    (s.store.find? shape).map (·.name) = (r.store.find? shape).map (·.name) :=
  Store.name_find?_congr h.names_eq h.shapes_eq shape

/-- Another syntax leaves states alike. -/
theorem alike_simulates (policy : Collision) :
    Simulates policy (fun c c' => c.name = c'.name ∧ c.chain = c'.chain) (fun _ _ => True) Alike where
  name_eq hC := hC.1
  child hC key := by
    rw [Context.child, Context.child, hC.2]
    exact ⟨rfl, rfl⟩
  nil := trivial
  line _ _ _ _ _ := trivial
  taken_eq h := h.taken_eq
  found_eq h := h.find?_eq
  note h _ := ⟨h.names_eq, h.shapes_eq, h.taken_eq⟩
  opened hC h := by
    refine ⟨?_, ?_, ?_⟩
    · rw [store_opened, store_opened, h.names_eq]
    · rw [store_opened, store_opened, h.shapes_eq]
    · rw [taken_opened, taken_opened, h.taken_eq, hC.1]
  emit hC h h' _ shape := by
    refine ⟨?_, ?_, h'.taken_eq⟩
    · rw [store_emit, store_emit, Store.names_push, Store.names_push, h'.names_eq, declared, declared,
        h.taken_eq, hC.1]
    · rw [store_emit, store_emit, Store.shapes_push, Store.shapes_push, h'.shapes_eq]
      rfl

end Synthesis

/-! ## Stores, declaration by declaration -/

namespace Store

variable {a b : Store}

/-- Stores with the same names and shapes are equal if their texts are. -/
theorem eq_of_texts (hnames : a.names = b.names) (hshapes : a.shapes = b.shapes)
    (htexts : ∀ index d e, a.get? index = some d → b.get? index = some e → d.name = e.name →
      d.shape = e.shape → d.text = e.text) : a = b := by
  obtain ⟨entries⟩ := a
  obtain ⟨others⟩ := b
  rw [Store.mk.injEq]
  refine List.ext_getElem? fun index => ?_
  have hname : (entries[index]?).map (·.name) = (others[index]?).map (·.name) := by
    rw [← List.getElem?_map, ← List.getElem?_map]
    exact congrArg (fun names : List String => names[index]?) hnames
  have hshape : (entries[index]?).map (·.shape) = (others[index]?).map (·.shape) := by
    rw [← List.getElem?_map, ← List.getElem?_map]
    exact congrArg (fun shapes : List Shape => shapes[index]?) hshapes
  have htext := htexts index
  rw [get?, get?] at htext
  -- At every index both stores have a declaration, or neither has.
  cases hd : entries[index]? with
  | none =>
      rw [hd] at hname
      exact (Option.map_eq_none_iff.mp hname.symm).symm
  | some d =>
      rw [hd] at hname hshape htext
      obtain ⟨e, he, hname'⟩ := Option.map_eq_some_iff.mp hname.symm
      rw [he] at hshape htext ⊢
      have hshape' : d.shape = e.shape := Option.some.inj hshape
      have htext' := htext d e rfl rfl hname'.symm hshape'
      obtain ⟨name, shape, text⟩ := d
      cases hname'
      cases hshape'
      cases htext'
      rfl

end Store

/-! ## One build -/

section

variable {shape : Shape} {options others : Options} {store a b : Store}

/-- The name that a build returns is that of the declaration which the store finds for the shape. -/
theorem root_of_stores (hp : shape.Proper)
    (hnames : (declareInto shape options a).store.names = (declareInto shape others b).store.names)
    (hshapes : (declareInto shape options a).store.shapes =
      (declareInto shape others b).store.shapes) :
    (declareInto shape options a).root = (declareInto shape others b).root := by
  obtain ⟨d, hd, hroot⟩ := declareInto_find? hp options a
  obtain ⟨e, he, hroot'⟩ := declareInto_find? hp others b
  have heq := Store.name_find?_congr hnames hshapes shape
  rw [hd, he] at heq
  rw [← hroot, ← hroot']
  exact Option.some.inj heq

/-- What a build into a store plans to declare. -/
def planInto (shape : Shape) (options : Options) (known : List Shape) : List Planned :=
  Synthesis.plan (some options.rootName) [] shape known

/-- What a build declares follows the plan that is drawn up from the shapes of its store. -/
theorem declareInto_follows (shape : Shape) (options : Options) (store : Store) :
    Synthesis.Follows options.collision (planInto shape options store.shapes)
      (Synthesis.start store) (declareRoot shape options store).2 :=
  Synthesis.declare_follows options.collision shape (.root options.rootName options.mode)
    (Synthesis.start store)

theorem shapes_declareInto (shape : Shape) (options : Options) (store : Store) :
    (declareInto shape options store).store.shapes =
      store.shapes ++ (planInto shape options store.shapes).map (·.shape) :=
  (declareInto_follows shape options store).shapes_eq

/-- Whatever the options are, the shapes are the same. -/
theorem shapes_declareInto_congr (shape : Shape) (options others : Options)
    (h : a.shapes = b.shapes) : (declareInto shape options a).store.shapes =
      (declareInto shape others b).store.shapes := by
  rw [shapes_declareInto, shapes_declareInto, h]
  exact congrArg _ (Synthesis.shapes_plan_congr _ _ _ _ _)

/-- In another syntax the names are the same. -/
theorem names_declareInto_congr (shape : Shape) (hwish : options.rootName = others.rootName)
    (hcollision : options.collision = others.collision) (hnames : a.names = b.names)
    (hshapes : a.shapes = b.shapes) : (declareInto shape options a).store.names =
      (declareInto shape others b).store.names := by
  have hcontexts : (Context.root options.rootName options.mode).name =
        (Context.root others.rootName others.mode).name ∧
      (Context.root options.rootName options.mode).chain =
        (Context.root others.rootName others.mode).chain := ⟨congrArg some hwish, rfl⟩
  have halike : (Synthesis.start a).Alike (Synthesis.start b) := ⟨hnames, hshapes, hnames⟩
  rw [declareInto, declareInto, ← hcollision]
  have hend := Synthesis.declare_simulate (Synthesis.alike_simulates options.collision) hcontexts halike
  exact (hend shape).2.names_eq

/-- If nothing that is wished for is taken, the names are those wished for. -/
theorem names_declareInto_of_free
    (hfree : options.collision = .disambiguate →
      Synthesis.Free (planInto shape options store.shapes) store.names) :
    (declareInto shape options store).store.names =
      store.names ++ Synthesis.wishes (planInto shape options store.shapes) :=
  (declareInto_follows shape options store).names_eq hfree

/-- If nothing that is wished for is taken, it does not matter what happens to taken names. -/
theorem store_declareInto_congr (hp : shape.Proper) (hwish : options.rootName = others.rootName)
    (hmode : options.mode = others.mode)
    (hfree : Synthesis.Free (planInto shape options store.shapes) store.names) :
    (declareInto shape options store).store = (declareInto shape others store).store := by
  have hplan : planInto shape others store.shapes = planInto shape options store.shapes := by
    rw [planInto, planInto, hwish]
  have hnames : (declareInto shape options store).store.names =
      (declareInto shape others store).store.names := by
    rw [names_declareInto_of_free fun _ => hfree,
      names_declareInto_of_free fun _ => hplan.symm ▸ hfree, hplan]
  have hshapes := shapes_declareInto_congr shape options others (rfl : store.shapes = store.shapes)
  have hadds : ∀ options : Options, Synthesis.Adds (fun later _ d => later.Covers d.shape ∧
      d.text = FieldTuple.text options.mode d.name (later.tuples d.shape)) (Synthesis.start store)
      (declareRoot shape options store).2 := fun options =>
    Synthesis.declare_trackIn (Synthesis.tracks_text options.collision options.mode) hp rfl _
  -- Names and shapes are equal, so only the texts are left, and they are spelled out by names and shapes.
  refine Store.eq_of_texts hnames hshapes fun index d e hd he hname hshape => ?_
  by_cases hold : index < store.length
  · -- Both stores begin with what was there.
    have hd' := (declareInto_extends hp options store).get?_of_lt hold hd
    have he' := (declareInto_extends hp others store).get?_of_lt hold he
    cases hd'.symm.trans he'
    rfl
  · have htext := ((hadds options).2 index d (Nat.le_of_not_lt hold) hd).2
    have htext' := ((hadds others).2 index e (Nat.le_of_not_lt hold) he).2
    rw [htext, htext', hname, hshape, hmode]
    exact congrArg _ (Store.tuples_congr hnames hshapes e.shape)

end

/-! ## Many builds -/

/-- What each build yields, one after the other. A value without a shape leaves the store as it is. -/
def buildResults : List BuildStep → Store → List (Except InferenceFault Built)
  | [], _ => []
  | step :: steps, store =>
    match buildInto step.source step.options store with
    | .error fault => .error fault :: buildResults steps store
    | .ok built => .ok built :: buildResults steps built.store

/-- Both builds fail for the same reason, or both yield something, and what they yield is related. -/
inductive Agree (R : Built → Built → Prop) :
    Except InferenceFault Built → Except InferenceFault Built → Prop
  | failed (fault : InferenceFault) : Agree R (.error fault) (.error fault)
  | built {a b : Built} (h : R a b) : Agree R (.ok a) (.ok b)

/-- What is planned by builds, one after the other, beyond the shapes that are known. -/
def planAll : List BuildStep → List Shape → List Planned
  | [], _ => []
  | step :: steps, known =>
    match step.source.inferShape step.options.policy with
    | .error _ => planAll steps known
    | .ok shape =>
      let first := planInto shape step.options known
      first ++ planAll steps (known ++ first.map (·.shape))

namespace BuildStep

/-- The same value, classified in the same way. -/
structure SameSample (step other : BuildStep) : Prop where
  source_eq : step.source = other.source
  policy_eq : step.options.policy = other.options.policy

/-- The same choices of names. -/
structure SameNaming (step other : BuildStep) : Prop where
  rootWish_eq : step.options.rootWish = other.options.rootWish
  collision_eq : step.options.collision = other.options.collision

/-- The same wishes and the same syntax, whatever happens to names that are taken. -/
structure SameWriting (step other : BuildStep) : Prop where
  rootWish_eq : step.options.rootWish = other.options.rootWish
  mode_eq : step.options.mode = other.options.mode

variable {step other : BuildStep} {shape : Shape}

theorem SameSample.inferShape_eq (h : step.SameSample other) :
    step.source.inferShape step.options.policy = other.source.inferShape other.options.policy := by
  rw [h.source_eq, h.policy_eq]

theorem SameNaming.rootName_eq (h : step.SameNaming other) :
    step.options.rootName = other.options.rootName := by
  rw [Options.rootName, Options.rootName, h.rootWish_eq]

theorem SameWriting.rootName_eq (h : step.SameWriting other) :
    step.options.rootName = other.options.rootName := by
  rw [Options.rootName, Options.rootName, h.rootWish_eq]

end BuildStep

section

variable {step other : BuildStep} {steps others : List BuildStep} {shape : Shape} {a b : Store}

/-- Builds of the same values side by side: what every pair of builds keeps, all of them keep, and what
they yield is related if that holds of every pair. -/
theorem side_by_side {R : List BuildStep → List BuildStep → Store → Store → Prop}
    {Q : Built → Built → Prop}
    (hfailed : ∀ {step other steps others a b fault}, R (step :: steps) (other :: others) a b →
      step.source.inferShape step.options.policy = .error fault → R steps others a b)
    (hbuilt : ∀ {step other steps others a b shape}, R (step :: steps) (other :: others) a b →
      step.Infers shape →
        Q (declareInto shape step.options a) (declareInto shape other.options b) ∧
          R steps others (declareInto shape step.options a).store
            (declareInto shape other.options b).store)
    (h : List.Forall₂ BuildStep.SameSample steps others) (hstart : R steps others a b) :
    List.Forall₂ (Agree Q) (buildResults steps a) (buildResults others b) ∧
      R [] [] (buildEach steps a) (buildEach others b) := by
  -- The relation is about the steps still to come and the stores so far.
  induction h generalizing a b with
  | nil => exact ⟨.nil, hstart⟩
  | @cons step other steps others hsame _ ih =>
      rw [buildResults, buildResults, buildEach, buildEach, List.foldl_cons, List.foldl_cons]
      have hinfer := hsame.inferShape_eq
      cases hstep : step.source.inferShape step.options.policy with
      | error fault =>
          rw [hstep] at hinfer
          have hleft : buildInto step.source step.options a = .error fault := by
            rw [buildInto, hstep]
            rfl
          have hright : buildInto other.source other.options b = .error fault := by
            rw [buildInto, ← hinfer]
            rfl
          rw [hleft, hright]
          obtain ⟨hresults, hend⟩ := ih (hfailed hstart hstep)
          exact ⟨.cons (.failed fault) hresults, hend⟩
      | ok shape =>
          rw [hstep] at hinfer
          obtain ⟨hyield, hnext⟩ := hbuilt hstart hstep
          rw [buildInto_eq hstep, buildInto_eq hinfer.symm]
          obtain ⟨hresults, hend⟩ := ih hnext
          exact ⟨.cons (.built hyield) hresults, hend⟩

/-- What is planned is what is declared. -/
theorem shapes_buildEach (steps : List BuildStep) (store : Store) :
    (buildEach steps store).shapes =
      store.shapes ++ (planAll steps store.shapes).map (·.shape) := by
  induction steps generalizing store with
  | nil => exact (List.append_nil _).symm
  | cons step steps ih =>
      rw [planAll]
      cases hstep : step.source.inferShape step.options.policy with
      | error fault => rw [buildEach_cons_of_error hstep, ih]
      | ok shape =>
          rw [buildEach_cons_of_infers hstep, ih, shapes_declareInto, List.append_assoc]
          simp only [List.map_append]

/-- The new names are those wished for, if taken names are used again, or if nothing that is wished for is
taken and no two wishes are equal. -/
theorem names_buildEach {store : Store}
    (hfree : (∃ step ∈ steps, step.options.collision = .disambiguate) →
      Synthesis.Free (planAll steps store.shapes) store.names) :
    (buildEach steps store).names =
      store.names ++ Synthesis.wishes (planAll steps store.shapes) := by
  induction steps generalizing store with
  | nil => exact (List.append_nil _).symm
  | cons step steps ih =>
      rw [planAll] at *
      cases hstep : step.source.inferShape step.options.policy with
      | error fault =>
          rw [hstep] at hfree
          rw [buildEach_cons_of_error hstep]
          refine ih fun hany => hfree ?_
          obtain ⟨later, hlater, hpolicy⟩ := hany
          exact ⟨later, List.mem_cons_of_mem _ hlater, hpolicy⟩
      | ok shape =>
          rw [hstep] at hfree
          -- The first build takes its wishes, and those that are left are free of them.
          have hnames := names_declareInto_of_free fun hpolicy =>
            (hfree ⟨step, List.mem_cons_self, hpolicy⟩).left
          rw [buildEach_cons_of_infers hstep, ih, hnames, shapes_declareInto, List.append_assoc]
          · simp only [Synthesis.wishes_append]
          · rintro ⟨later, hlater, hpolicy⟩
            rw [shapes_declareInto, hnames]
            refine (hfree ⟨later, List.mem_cons_of_mem _ hlater, hpolicy⟩).right fun name => ?_
            exact List.mem_append.mp

end

/-- **Choices of names and of syntax keep the structure.** The same values are built from the same store
with options that classify them alike. Then each build fails in both runs for the same reason, or yields
stores with the same shapes in the same order. What is declared anew is planned: where names are used again
whenever they are taken, the new names are those wished for.

If the options choose names alike, and only the syntax differs, the names are the same in the same order. If
they wish for the same names and write them alike, and only the treatment of taken names differs, and no
wish is taken from the start or made twice, then both runs yield the same stores, down to the texts. -/
theorem choices_keep_structure {steps others : List BuildStep}
    (hsame : List.Forall₂ BuildStep.SameSample steps others) (seed : Store) :
    (List.Forall₂ (Agree fun a b => a.store.shapes = b.store.shapes)
        (buildResults steps seed) (buildResults others seed) ∧
      (buildEach steps seed).shapes = (buildEach others seed).shapes) ∧
    ((buildEach steps seed).shapes =
        seed.shapes ++ (planAll steps seed.shapes).map (·.shape) ∧
      ((∀ step ∈ steps, step.options.collision = .preserve) → (buildEach steps seed).names =
        seed.names ++ Synthesis.wishes (planAll steps seed.shapes))) ∧
    (List.Forall₂ BuildStep.SameNaming steps others →
      List.Forall₂ (Agree fun a b => a.root = b.root ∧ a.store.names = b.store.names)
          (buildResults steps seed) (buildResults others seed) ∧
        (buildEach steps seed).names = (buildEach others seed).names) ∧
    (List.Forall₂ BuildStep.SameWriting steps others →
      (Synthesis.wishes (planAll steps seed.shapes)).Nodup →
      (∀ wish ∈ Synthesis.wishes (planAll steps seed.shapes), wish ∉ seed.names) →
      List.Forall₂ (Agree fun a b => a.root = b.root ∧ a.store = b.store)
          (buildResults steps seed) (buildResults others seed) ∧
        buildEach steps seed = buildEach others seed) := by
  refine ⟨?_, ⟨shapes_buildEach steps seed, fun hpreserve => ?_⟩, fun hnaming => ?_,
    fun hwriting hnodup hfresh => ?_⟩
  · -- Shapes: nothing but the shapes so far decides which ones are added.
    apply side_by_side (R := fun _ _ a b => a.shapes = b.shapes)
    · exact fun hshapes _ => hshapes
    · intro step other steps others a b shape hshapes _
      have hnext := shapes_declareInto_congr shape step.options other.options hshapes
      exact ⟨hnext, hnext⟩
    · exact hsame
    · rfl
  · refine names_buildEach fun hany => ?_
    obtain ⟨step, hstep, hpolicy⟩ := hany
    rw [hpreserve step hstep] at hpolicy
    cases hpolicy
  · -- Names: they follow the wishes, the shapes and the names that are taken, so all of these are kept
    -- along.
    have hruns := side_by_side (a := seed) (b := seed)
      (R := fun steps others a b =>
        List.Forall₂ BuildStep.SameNaming steps others ∧ a.names = b.names ∧ a.shapes = b.shapes)
      (Q := fun a b => a.root = b.root ∧ a.store.names = b.store.names) ?_ ?_ hsame
      ⟨hnaming, rfl, rfl⟩
    · exact ⟨hruns.1, hruns.2.2.1⟩
    · rintro step other steps others a b fault ⟨hnaming, hstores⟩ _
      exact ⟨(List.forall₂_cons.mp hnaming).2, hstores⟩
    · rintro step other steps others a b shape ⟨hnaming, hnames, hshapes⟩ hinfers
      obtain ⟨hpair, hrest⟩ := List.forall₂_cons.mp hnaming
      have hshapes' := shapes_declareInto_congr shape step.options other.options hshapes
      have hnames' :=
        names_declareInto_congr shape hpair.rootName_eq hpair.collision_eq hnames hshapes
      have hroot := root_of_stores hinfers.inferred.proper hnames' hshapes'
      exact ⟨⟨hroot, hnames'⟩, hrest, hnames', hshapes'⟩
  · -- Whole stores are kept equal here, and the wishes still to come stay free.
    have hruns := side_by_side (a := seed) (b := seed)
      (R := fun steps others a b => List.Forall₂ BuildStep.SameWriting steps others ∧ a = b ∧
        Synthesis.Free (planAll steps a.shapes) a.names)
      (Q := fun a b => a.root = b.root ∧ a.store = b.store) ?_ ?_ hsame
      ⟨hwriting, rfl, hnodup, hfresh⟩
    · exact ⟨hruns.1, hruns.2.2.1⟩
    · rintro step other steps others a b fault ⟨hwriting, hstores, hfree⟩ hfails
      rw [planAll, hfails] at hfree
      exact ⟨(List.forall₂_cons.mp hwriting).2, hstores, hfree⟩
    · rintro step other steps others a b shape ⟨hwriting, rfl, hfree⟩ hinfers
      obtain ⟨hpair, hrest⟩ := List.forall₂_cons.mp hwriting
      rw [planAll, hinfers] at hfree
      have hstore := store_declareInto_congr hinfers.inferred.proper hpair.rootName_eq
        hpair.mode_eq hfree.left
      have hroot := root_of_stores hinfers.inferred.proper (congrArg Store.names hstore)
        (congrArg Store.shapes hstore)
      refine ⟨⟨hroot, hstore⟩, hrest, hstore, ?_⟩
      rw [shapes_declareInto, names_declareInto_of_free fun _ => hfree.left]
      exact hfree.right fun name => List.mem_append.mp

/-- Two birds, with a value that has no shape between them. -/
def birdSteps (mode : RenderMode) (collision : Collision) : List BuildStep :=
  [⟨.document (.object [("bird", .object [("species", .string "wren")]), ("eggs", .null)]),
      { mode, collision }⟩,
    ⟨.document (.array []), { mode, collision }⟩,
    ⟨.document (.object [("nest", .object [("site", .string "hedge")])]),
      { mode, collision, rootWish := some "Hedge" }⟩]

theorem choices_keep_structure_birds :
    List.Forall₂ BuildStep.SameSample (birdSteps ⟨false, false⟩ .disambiguate)
        (birdSteps ⟨true, true⟩ .disambiguate) ∧
      (buildEach (birdSteps ⟨false, false⟩ .disambiguate) .empty).names =
        (buildEach (birdSteps ⟨true, true⟩ .disambiguate) .empty).names ∧
      List.Forall₂ BuildStep.SameSample (birdSteps ⟨false, false⟩ .disambiguate)
        (birdSteps ⟨false, false⟩ .preserve) ∧
      Synthesis.wishes (planAll (birdSteps ⟨false, false⟩ .disambiguate) []) =
        ["Bird", "Response", "Nest", "Hedge"] ∧
      buildEach (birdSteps ⟨false, false⟩ .disambiguate) .empty =
        buildEach (birdSteps ⟨false, false⟩ .preserve) .empty := by
  have hsamples : List.Forall₂ BuildStep.SameSample (birdSteps ⟨false, false⟩ .disambiguate)
      (birdSteps ⟨true, true⟩ .disambiguate) :=
    .cons ⟨rfl, rfl⟩ (.cons ⟨rfl, rfl⟩ (.cons ⟨rfl, rfl⟩ .nil))
  have hpolicy : List.Forall₂ BuildStep.SameSample (birdSteps ⟨false, false⟩ .disambiguate)
      (birdSteps ⟨false, false⟩ .preserve) :=
    .cons ⟨rfl, rfl⟩ (.cons ⟨rfl, rfl⟩ (.cons ⟨rfl, rfl⟩ .nil))
  have hwishes : Synthesis.wishes (planAll (birdSteps ⟨false, false⟩ .disambiguate) []) =
      ["Bird", "Response", "Nest", "Hedge"] := by decide +kernel
  obtain ⟨-, -, hnames, -⟩ := choices_keep_structure hsamples .empty
  obtain ⟨-, -, -, hstores⟩ := choices_keep_structure hpolicy .empty
  refine ⟨hsamples, (hnames ?_).2, hpolicy, hwishes, (hstores ?_ ?_ ?_).2⟩
  · exact .cons ⟨rfl, rfl⟩ (.cons ⟨rfl, rfl⟩ (.cons ⟨rfl, rfl⟩ .nil))
  · exact .cons ⟨rfl, rfl⟩ (.cons ⟨rfl, rfl⟩ (.cons ⟨rfl, rfl⟩ .nil))
  · exact hwishes ▸ by decide
  · exact fun _ _ => List.not_mem_nil

end SampleTypes

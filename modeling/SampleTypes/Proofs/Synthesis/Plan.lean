import SampleTypes.Proofs.Synthesis.Steps

/-!
# What is to be declared

Which shapes a synthesis declares, in which order, and which names are wished for them, does not depend on
how names are settled or texts are written. It can be planned ahead: from a shape, the fields that lead to
it, and the shapes that are known already (`Synthesis.plan`).

A synthesis follows its plan (`Synthesis.declare_follows`). The shapes it adds are those of the plan, whatever
its policy is. The names it adds are those wished for if taken names are used again, or if no wish is taken
and no two of them are equal.
-/

namespace SampleTypes

/-! ## Shapes and names of a store -/

namespace Store

variable {a b store : Store} {shape : Shape}

def shapes (store : Store) : List Shape :=
  store.entries.map (·.shape)

@[simp] theorem shapes_push (store : Store) (declaration : Declaration) :
    (store.push declaration).shapes = store.shapes ++ [declaration.shape] := by
  simp [shapes]

theorem any_same_shapes : store.shapes.any (·.same shape) = (store.find? shape).isSome := by
  rw [shapes, find?, List.any_map, List.isSome_find?]
  rfl

/-- The name that a look-up finds depends on the names and shapes of the store alone. -/
theorem name_find?_congr (hnames : a.names = b.names) (hshapes : a.shapes = b.shapes)
    (shape : Shape) : (a.find? shape).map (·.name) = (b.find? shape).map (·.name) := by
  have houtline : ∀ store : Store, (store.find? shape).map (·.name) =
      ((store.names.zip store.shapes).find? (·.2.same shape)).map (·.1) := by
    intro store
    rw [names, shapes, List.zip_map', List.find?_map, Option.map_map]
    rfl
  rw [houtline, houtline, hnames, hshapes]

/-- Stores with the same names and shapes give the same labels. -/
theorem labelOf_congr (hnames : a.names = b.names) (hshapes : a.shapes = b.shapes)
    (type : FieldType) : a.labelOf type = b.labelOf type := by
  have hlabel : ∀ store : Store, store.labelOf type =
      (type.nested?.bind fun nested => (store.find? nested).map (·.name)).getD type.label := by
    intro store
    cases hn : type.nested? with
    | none => rw [labelOf_of_none hn, Option.bind_none, Option.getD_none]
    | some nested =>
        rw [labelOf, hn, Option.bind_some, Option.bind_some]
        cases store.find? nested <;> rfl
  rw [hlabel, hlabel]
  simp only [name_find?_congr hnames hshapes]

theorem tuples_congr (hnames : a.names = b.names) (hshapes : a.shapes = b.shapes)
    (shape : Shape) : a.tuples shape = b.tuples shape := by
  refine List.map_congr_left fun field _ => ?_
  rw [tuple, tuple, labelOf_congr hnames hshapes]

end Store

/-! ## Plans -/

/-- A shape to be declared, and the name wished for its declaration. -/
structure Planned where
  wish : String
  shape : Shape

namespace Synthesis

/-- The plan of a shape, unless it is known: what is planned for its fields, and then the shape. -/
def planWith (wish : Option String) (shape : Shape) (fields : List Shape → List Planned)
    (known : List Shape) : List Planned :=
  if known.any (·.same shape) then []
  else fields known ++ [⟨Naming.candidate wish, shape⟩]

mutual

/-- What fields at the end of a chain make to be declared. -/
def planFields (chain : List String) : List (String × FieldType) → List Shape → List Planned
  | [], _ => []
  | (key, type) :: rest, known =>
    let first := planType (chain ++ [key]) type known
    first ++ planFields chain rest (known ++ first.map (·.shape))

/-- What the type of a field at the end of a chain makes to be declared. -/
def planType (chain : List String) : FieldType → List Shape → List Planned
  | ⟨_, _, _, _, none⟩, _ => []
  | ⟨kind, _, _, _, some fields⟩, known =>
    if kind == .object && !fields.isEmpty then
      planWith (some (Naming.derived chain)) fields (planFields chain fields) known
    else
      []

end

/-- What a shape makes to be declared, in the order in which it is added. -/
def plan (wish : Option String) (chain : List String) (shape : Shape) (known : List Shape) :
    List Planned :=
  planWith wish shape (planFields chain shape) known

variable {policy : Collision} {context : Context} {shape fields nested : Shape}
  {s s' s₁ s₂ s₃ : Synthesis} {lines : String} {type : FieldType} {chain : List String}
  {known : List Shape}

theorem planType_of_none (h : type.nested? = none) : planType chain type known = [] := by
  obtain ⟨kind, label, optional, isArray, fields?⟩ := type
  cases fields? with
  | none => rw [planType]
  | some fields =>
      rw [FieldType.nested?_mk_some, ite_eq_right_iff] at h
      rw [planType, if_neg fun hd => Option.some_ne_none _ (h hd)]

theorem planType_of_some (h : type.nested? = some nested) :
    planType chain type known = plan (some (Naming.derived chain)) chain nested known := by
  obtain ⟨kind, label, optional, isArray, fields?⟩ := type
  cases FieldType.fields_of_nested? h
  rw [FieldType.nested?_mk_some, Option.ite_none_right_eq_some] at h
  rw [planType, if_pos h.1, plan]

theorem plan_of_known {store : Store} {declaration : Declaration} {wish : Option String}
    (h : store.find? shape = some declaration) : plan wish chain shape store.shapes = [] := by
  rw [plan, planWith, Store.any_same_shapes, h, Option.isSome_some, if_pos rfl]

/-- An unknown shape is planned behind those in its fields. -/
theorem plan_of_unknown {store : Store} {wish : Option String} (h : store.find? shape = none) :
    plan wish chain shape store.shapes =
      planFields chain shape store.shapes ++ [⟨Naming.candidate wish, shape⟩] := by
  rw [plan, planWith, Store.any_same_shapes, h, Option.isSome_none, if_neg Bool.false_ne_true]

/-- The name that is wished for a shape plays no part in what is declared. -/
theorem shapes_plan_congr (wish other : Option String) (chain : List String) (shape : Shape)
    (known : List Shape) : (plan wish chain shape known).map (·.shape) =
      (plan other chain shape known).map (·.shape) := by
  rw [plan, plan, planWith, planWith]
  split
  · rfl
  · rw [List.map_append, List.map_append]
    rfl

/-! ## Wishes -/

def wishes (plan : List Planned) : List String :=
  plan.map (·.wish)

/-- No wish of the plan is taken, and no two are equal. -/
def Free (plan : List Planned) (taken : List String) : Prop :=
  (wishes plan).Nodup ∧ ∀ wish ∈ wishes plan, wish ∉ taken

variable {first second : List Planned}

@[simp] theorem wishes_append : wishes (first ++ second) = wishes first ++ wishes second :=
  List.map_append

theorem Free.left {taken : List String} (h : Free (first ++ second) taken) : Free first taken := by
  rw [Free, wishes_append] at h
  exact ⟨(List.nodup_append.mp h.1).1, fun wish hwish => h.2 wish (List.mem_append_left _ hwish)⟩

/-- The second part of a plan is free when the wishes of the first part are taken. -/
theorem Free.right {taken later : List String} (h : Free (first ++ second) taken)
    (hlater : ∀ name ∈ later, name ∈ taken ∨ name ∈ wishes first) : Free second later := by
  rw [Free, wishes_append, List.nodup_append] at h
  obtain ⟨⟨-, hnodup, hdisjoint⟩, hfree⟩ := h
  refine ⟨hnodup, fun wish hwish htaken => ?_⟩
  rcases hlater wish htaken with hmem | hmem
  · exact hfree wish (List.mem_append_right _ hwish) hmem
  · exact hdisjoint wish hmem wish hwish rfl

/-- Around a plan: what is planned last takes its name first. -/
theorem Free.around {taken : List String} {wish : String}
    (h : Free (first ++ [⟨wish, shape⟩]) taken) : wish ∉ taken ∧ Free first (wish :: taken) := by
  have hleft := h.left
  rw [Free, wishes_append, List.nodup_append] at h
  obtain ⟨⟨-, -, hdisjoint⟩, hfree⟩ := h
  have hmem : wish ∈ wishes [(⟨wish, shape⟩ : Planned)] := List.mem_singleton_self wish
  refine ⟨hfree wish (List.mem_append_right _ hmem), hleft.1, fun name hname htaken => ?_⟩
  rcases List.mem_cons.mp htaken with rfl | htaken
  · exact hdisjoint name hname name hmem rfl
  · exact hleft.2 name hname htaken

/-! ## Following a plan -/

/-- A stretch of a synthesis that declares what is planned. Names are those wished for, if nothing makes
them give way. -/
structure Follows (policy : Collision) (plan : List Planned) (s s' : Synthesis) : Prop where
  shapes_eq : s'.store.shapes = s.store.shapes ++ plan.map (·.shape)
  names_eq : (policy = .disambiguate → Free plan s.taken) →
    s'.store.names = s.store.names ++ wishes plan
  taken_sub : (policy = .disambiguate → Free plan s.taken) →
    ∀ name ∈ s'.taken, name ∈ s.taken ∨ name ∈ wishes plan

theorem Follows.nil (hstore : s'.store = s.store) (htaken : s'.taken = s.taken) :
    Follows policy [] s s' where
  shapes_eq := by rw [hstore, List.map_nil, List.append_nil]
  names_eq _ := by rw [hstore, wishes, List.map_nil, List.append_nil]
  taken_sub _ name hname := .inl (htaken ▸ hname)

/-- Two plans are followed one after the other, if their wishes do not meet. -/
theorem Follows.append (h : Follows policy first s₁ s₂) (h' : Follows policy second s₂ s₃) :
    Follows policy (first ++ second) s₁ s₃ := by
  have hparts : (policy = .disambiguate → Free (first ++ second) s₁.taken) →
      (policy = .disambiguate → Free first s₁.taken) ∧
        (policy = .disambiguate → Free second s₂.taken) := by
    intro hfree
    have hleft := fun hpolicy => (hfree hpolicy).left
    exact ⟨hleft, fun hpolicy => (hfree hpolicy).right (h.taken_sub hleft)⟩
  refine ⟨?_, fun hfree => ?_, fun hfree name hname => ?_⟩
  · rw [h'.shapes_eq, h.shapes_eq, List.map_append, List.append_assoc]
  · obtain ⟨hleft, hright⟩ := hparts hfree
    rw [h'.names_eq hright, h.names_eq hleft, wishes_append, List.append_assoc]
  · obtain ⟨hleft, hright⟩ := hparts hfree
    rw [wishes_append, List.mem_append, ← or_assoc]
    exact (h'.taken_sub hright name hname).imp_left (h.taken_sub hleft name)

/-- A declaration around a stretch is planned behind it. -/
theorem Follows.around (h : Follows policy first (s.opened policy context) s₁) :
    Follows policy (first ++ [⟨Naming.candidate context.name, shape⟩]) s
      (s₁.emit (s.declared policy context shape lines)) := by
  have hopened : (policy = .disambiguate →
      Free (first ++ [⟨Naming.candidate context.name, shape⟩]) s.taken) →
      (s.declared policy context shape lines).name = Naming.candidate context.name ∧
        (policy = .disambiguate → Free first (s.opened policy context).taken) ∧
        ∀ name ∈ (s.opened policy context).taken,
          name ∈ s.taken ∨ name = Naming.candidate context.name := by
    intro hfree
    cases policy with
    | preserve =>
        -- Nothing is claimed for good, so nothing gives way.
        have htaken : (s.opened .preserve context).taken = s.taken := taken_opened _ _ _
        refine ⟨rfl, nofun, fun name hname => ?_⟩
        exact .inl (htaken ▸ hname)
    | disambiguate =>
        obtain ⟨hwish, hinner⟩ := (hfree rfl).around
        have hname : Naming.fresh s.taken (Naming.candidate context.name) =
            Naming.candidate context.name := Naming.claim_of_not_mem hwish .disambiguate
        have htaken : (s.opened .disambiguate context).taken =
            Naming.candidate context.name :: s.taken := by
          rw [taken_opened, hname]
        refine ⟨hname, fun _ => htaken ▸ hinner, fun name hmem => ?_⟩
        rw [htaken, List.mem_cons] at hmem
        exact hmem.symm
  refine ⟨?_, fun hfree => ?_, fun hfree name hname => ?_⟩
  · rw [store_emit, Store.shapes_push, h.shapes_eq, store_opened, List.map_append,
      List.append_assoc]
    rfl
  · obtain ⟨hname, hinner, -⟩ := hopened hfree
    rw [store_emit, Store.names_push, h.names_eq hinner, store_opened, hname, wishes_append,
      List.append_assoc]
    rfl
  · obtain ⟨-, hinner, htaken⟩ := hopened hfree
    rw [wishes_append, List.mem_append]
    rcases h.taken_sub hinner name hname with hmem | hmem
    · rcases htaken name hmem with hmem | rfl
      · exact .inl hmem
      · exact .inr (.inr (List.mem_singleton_self _))
    · exact .inr (.inl hmem)

/-- Writing fields follows their plan. -/
theorem Writes.follows (h : Writes policy context fields s lines s') :
    Follows policy (planFields context.chain fields s.store.shapes) s s' := by
  induction h with
  | nil => exact .nil rfl rfl
  | plain hn _ ih =>
      rw [planFields, planType_of_none hn, List.map_nil, List.append_nil, List.nil_append]
      exact ih
  | @known context s s' key type rest lines nested known hn hf _ ih =>
      have hnote : Follows policy [] s (s.note (.reused known.name)) := .nil rfl rfl
      rw [planFields, planType_of_some hn, plan_of_known hf, List.map_nil, List.append_nil]
      exact hnote.append ih
  | @fresh context s s₁ s' key type rest inner lines nested hn hf hin _ ihin ih =>
      -- What is left to write is planned with the shapes that this field adds.
      have hfield : Follows policy (plan (context.child key).name (context.child key).chain nested
          s.store.shapes) s (s₁.emit (s.declared policy (context.child key) nested inner)) := by
        rw [plan_of_unknown hf, ← store_opened policy (context.child key) s]
        exact ihin.around
      rw [planFields, planType_of_some hn]
      rw [hfield.shapes_eq] at ih
      exact hfield.append ih

/-- **A synthesis follows its plan.** -/
theorem declare_follows (policy : Collision) (shape : Shape) (context : Context) (s : Synthesis) :
    Follows policy (plan context.name context.chain shape s.store.shapes) s
      (s.declare policy shape context).2 := by
  cases hf : s.store.find? shape with
  | some known =>
      rw [plan_of_known hf, declare_of_known hf]
      exact .nil rfl rfl
  | none =>
      have hwritten := (writes_writeFields policy context shape (s.opened policy context)).follows
      rw [store_opened] at hwritten
      rw [plan_of_unknown hf, declare_of_unknown hf]
      exact hwritten.around

end Synthesis

end SampleTypes

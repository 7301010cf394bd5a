import SampleTypes.Proofs.Naming
import SampleTypes.Proofs.Synthesis.Plan

/-!
# Names by first occurrence

Names are claimed on the way down and declarations are added on the way up, while the store grows and claimed
names wait for their declarations. What comes out of this can be said in two steps.

First the shape is walked depth first, without names and without a store that grows. A shape that was seen
before is passed over with all that is below it. What is left is a forest of first occurrences, each with the
name wished for (`Synthesis.walk`).

Then names are settled one after the other, in the order in which the walk comes to the shapes
(`Synthesis.Settled`). The new declarations have these names. They are added in the order in which the walk
leaves the shapes (`Synthesis.names_by_first_occurrence`).
-/

namespace SampleTypes

/-! ## Forests -/

/-- Trees in a row, each of them a root with a forest below it. -/
inductive Forest (α : Type) where
  | nil
  | node (root : α) (below rest : Forest α)

namespace Forest

variable {α β : Type} {first second : Forest α}

def append : Forest α → Forest α → Forest α
  | .nil, second => second
  | .node root below rest, second => .node root below (rest.append second)

def map (f : α → β) : Forest α → Forest β
  | .nil => .nil
  | .node root below rest => .node (f root) (below.map f) (rest.map f)

/-- The roots in the order in which a walk comes to them. -/
def preorder : Forest α → List α
  | .nil => []
  | .node root below rest => root :: (below.preorder ++ rest.preorder)

/-- The roots in the order in which a walk leaves them. -/
def postorder : Forest α → List α
  | .nil => []
  | .node root below rest => below.postorder ++ root :: rest.postorder

@[simp] theorem map_append (f : α → β) (first second : Forest α) :
    (first.append second).map f = (first.map f).append (second.map f) := by
  induction first with
  | nil => rfl
  | node root below rest _ ih => rw [append, map, ih, map, append]

@[simp] theorem preorder_append (first second : Forest α) :
    (first.append second).preorder = first.preorder ++ second.preorder := by
  induction first with
  | nil => rfl
  | node root below rest _ ih =>
      rw [append, preorder, ih, preorder, List.cons_append, List.append_assoc]

@[simp] theorem postorder_append (first second : Forest α) :
    (first.append second).postorder = first.postorder ++ second.postorder := by
  induction first with
  | nil => rfl
  | node root below rest _ ih =>
      rw [append, postorder, ih, postorder, List.append_assoc, List.cons_append]

theorem preorder_map (f : α → β) (forest : Forest α) :
    (forest.map f).preorder = forest.preorder.map f := by
  induction forest with
  | nil => rfl
  | node root below rest ihbelow ih =>
      rw [map, preorder, preorder, ihbelow, ih, List.map_cons, List.map_append]

/-- A walk leaves the roots that it comes to. -/
theorem postorder_perm_preorder (forest : Forest α) : forest.postorder.Perm forest.preorder := by
  induction forest with
  | nil => exact .refl _
  | node root below rest ihbelow ih => exact List.perm_middle.trans ((ihbelow.append ih).cons root)

end Forest

namespace Synthesis

variable {policy : Collision} {context : Context} {shape fields nested : Shape}
  {s s' s₁ s₂ s₃ : Synthesis} {lines : String} {type : FieldType} {chain : List String}
  {seen : List Shape} {wish : Option String}

/-! ## The walk -/

/-- The walk from a shape, unless it was seen: the shape, and below it what is met in its fields. -/
def walkWith (wish : Option String) (shape : Shape) (fields : List Shape → Forest Planned)
    (seen : List Shape) : Forest Planned :=
  if seen.any (·.same shape) then .nil
  else .node ⟨Naming.candidate wish, shape⟩ (fields (seen ++ [shape])) .nil

mutual

/-- The first occurrences in fields at the end of a chain. -/
def walkFields (chain : List String) : List (String × FieldType) → List Shape → Forest Planned
  | [], _ => .nil
  | (key, type) :: rest, seen =>
    let first := walkType (chain ++ [key]) type seen
    first.append (walkFields chain rest (seen ++ first.preorder.map (·.shape)))

/-- The first occurrences in the type of a field at the end of a chain. -/
def walkType (chain : List String) : FieldType → List Shape → Forest Planned
  | ⟨_, _, _, _, none⟩, _ => .nil
  | ⟨kind, _, _, _, some fields⟩, seen =>
    if kind == .object && !fields.isEmpty then
      walkWith (some (Naming.derived chain)) fields (walkFields chain fields) seen
    else
      .nil

end

/-- The first occurrences in a shape at the end of a chain, without what was seen before. Each of them is to
have the name that the fields leading there give, but the shape itself the one that is wished for it. -/
def walk (wish : Option String) (chain : List String) (shape : Shape) (seen : List Shape) :
    Forest Planned :=
  walkWith wish shape (walkFields chain shape) seen

theorem walkType_of_none (h : type.nested? = none) : walkType chain type seen = .nil := by
  obtain ⟨kind, label, optional, isArray, fields?⟩ := type
  cases fields? with
  | none => rw [walkType]
  | some fields =>
      rw [FieldType.nested?_mk_some, ite_eq_right_iff] at h
      rw [walkType, if_neg fun hd => Option.some_ne_none _ (h hd)]

theorem walkType_of_some (h : type.nested? = some nested) :
    walkType chain type seen = walk (some (Naming.derived chain)) chain nested seen := by
  obtain ⟨kind, label, optional, isArray, fields?⟩ := type
  cases FieldType.fields_of_nested? h
  rw [FieldType.nested?_mk_some, Option.ite_none_right_eq_some] at h
  rw [walkType, if_pos h.1, walk]

theorem walk_of_seen (h : seen.any (·.same shape) = true) : walk wish chain shape seen = .nil := by
  rw [walk, walkWith, h, if_pos rfl]

/-- A new shape is a node over those that are met in its fields. -/
theorem walk_of_unseen (h : seen.any (·.same shape) = false) : walk wish chain shape seen =
    .node ⟨Naming.candidate wish, shape⟩ (walkFields chain shape (seen ++ [shape])) .nil := by
  rw [walk, walkWith, h, if_neg Bool.false_ne_true]

/-! ## Names, one after the other -/

/-- Going through the list, every name is the one that is due to its wish when those before it are taken. -/
def Settled (policy : Collision) : (taken : List String) → List (Planned × String) → Prop
  | _, [] => True
  | taken, (planned, name) :: rest =>
    Naming.Due policy taken planned.wish name ∧ Settled policy (taken ++ [name]) rest

section

variable {taken other : List String} {named later : List (Planned × String)}

/-- All that counts of the names that are taken is which ones they are. -/
theorem Settled.congr (h : Settled policy taken named)
    (hmem : policy = .disambiguate → ∀ name, name ∈ taken ↔ name ∈ other) :
    Settled policy other named := by
  induction named generalizing taken other with
  | nil => trivial
  | cons first rest ih =>
      refine ⟨h.1.congr hmem, ih h.2 fun hpolicy name => ?_⟩
      rw [List.mem_append, List.mem_append, hmem hpolicy]

/-- Names are settled one list after the other, those of the first one being taken for the second. -/
theorem Settled.append (h : Settled policy taken named)
    (h' : Settled policy (taken ++ named.map (·.2)) later) :
    Settled policy taken (named ++ later) := by
  induction named generalizing taken with
  | nil => rwa [List.map_nil, List.append_nil] at h'
  | cons first rest ih =>
      refine ⟨h.1, ih h.2 ?_⟩
      rwa [List.append_assoc]

end

/-! ## Along the walk -/

/-- A stretch of a synthesis that declares what a walk meets: names are settled on the way in, and
declarations are added on the way out. -/
structure Walked (policy : Collision) (named : Forest (Planned × String)) (s s' : Synthesis) :
    Prop where
  settled : Settled policy s.taken named.preorder
  taken_iff : policy = .disambiguate →
    ∀ name, name ∈ s'.taken ↔ name ∈ s.taken ∨ name ∈ named.preorder.map (·.2)
  names_eq : s'.store.names = s.store.names ++ named.postorder.map (·.2)
  shapes_eq : s'.store.shapes = s.store.shapes ++ named.postorder.map (·.1.shape)

theorem Walked.nil (hstore : s'.store = s.store) (htaken : s'.taken = s.taken) :
    Walked policy .nil s s' where
  settled := trivial
  taken_iff _ name := by simp [htaken, Forest.preorder]
  names_eq := by rw [hstore, Forest.postorder, List.map_nil, List.append_nil]
  shapes_eq := by rw [hstore, Forest.postorder, List.map_nil, List.append_nil]

/-- Stretches one after the other: the names of the first one are taken in the second one. -/
theorem Walked.append {first second : Forest (Planned × String)} (h : Walked policy first s₁ s₂)
    (h' : Walked policy second s₂ s₃) : Walked policy (first.append second) s₁ s₃ where
  settled := by
    rw [Forest.preorder_append]
    refine h.settled.append (h'.settled.congr fun hpolicy name => ?_)
    rw [h.taken_iff hpolicy, List.mem_append]
  taken_iff hpolicy name := by
    rw [h'.taken_iff hpolicy, h.taken_iff hpolicy, Forest.preorder_append, List.map_append,
      List.mem_append, or_assoc]
  names_eq := by
    rw [h'.names_eq, h.names_eq, Forest.postorder_append, List.map_append, List.append_assoc]
  shapes_eq := by
    rw [h'.shapes_eq, h.shapes_eq, Forest.postorder_append, List.map_append, List.append_assoc]

/-- A declaration around a stretch: its name is settled before the stretch, and it is added behind it. -/
theorem Walked.around {below : Forest (Planned × String)}
    (h : Walked policy below (s.opened policy context) s₁) :
    Walked policy (.node (⟨Naming.candidate context.name, shape⟩,
        (s.declared policy context shape lines).name) below .nil) s
      (s₁.emit (s.declared policy context shape lines)) := by
  -- The name is taken before those below it are chosen, and the declaration comes behind theirs.
  have htaken : policy = .disambiguate → (s.opened policy context).taken =
      (s.declared policy context shape lines).name :: s.taken := by
    rintro rfl
    exact taken_opened .disambiguate context s
  have hdue : Naming.Due policy s.taken (Naming.candidate context.name)
      (s.declared policy context shape lines).name := Naming.due_claim _ _ _
  refine ⟨?_, fun hpolicy name => ?_, ?_, ?_⟩
  · rw [Forest.preorder, Forest.preorder, List.append_nil]
    refine ⟨hdue, h.settled.congr fun hpolicy name => ?_⟩
    rw [htaken hpolicy, List.mem_cons, List.mem_append, List.mem_singleton, or_comm]
  · rw [taken_emit, h.taken_iff hpolicy, htaken hpolicy, Forest.preorder, Forest.preorder,
      List.append_nil, List.map_cons, List.mem_cons, List.mem_cons, or_assoc, or_left_comm]
  · rw [store_emit, Store.names_push, h.names_eq, store_opened, Forest.postorder, Forest.postorder,
      List.map_append, List.append_assoc]
    rfl
  · rw [store_emit, Store.shapes_push, h.shapes_eq, store_opened, Forest.postorder,
      Forest.postorder, List.map_append, List.append_assoc]
    rfl

/-- It makes no difference whether a shape with few levels is looked for among the shapes that were seen or in
the store. -/
def SeenAs (seen : List Shape) (store : Store) (bound : Nat) : Prop :=
  ∀ shape : Shape, shape.Proper → shape.levels < bound →
    seen.any (·.same shape) = (store.find? shape).isSome

namespace SeenAs

variable {store : Store} {bound : Nat}

theorem of_store (store : Store) (bound : Nat) : SeenAs store.shapes store bound :=
  fun _ _ _ => Store.any_same_shapes

theorem any_of_known (h : SeenAs seen store bound) (hp : nested.Proper) (hlt : nested.levels < bound)
    {known : Declaration} (hf : store.find? nested = some known) :
    seen.any (·.same nested) = true := by
  rw [h nested hp hlt, hf, Option.isSome_some]

/-- An unknown shape has not been seen: those that are being written have more levels. -/
theorem any_of_unknown (h : SeenAs seen store bound) (hp : nested.Proper)
    (hlt : nested.levels < bound) (hf : store.find? nested = none) :
    seen.any (·.same nested) = false := by
  rw [h nested hp hlt, hf, Option.isSome_none]

/-- On the way in, a shape is seen that is not in the store yet. But what is inside it has fewer levels, and
so is not the same. -/
theorem enter (h : SeenAs seen store bound) (hp : nested.Proper) (hle : nested.levels ≤ bound) :
    SeenAs (seen ++ [nested]) store nested.levels := by
  intro shape hshape hlt
  have hnot : nested.same shape = false := by
    refine Bool.eq_false_iff.mpr fun hsame => ?_
    exact Nat.ne_of_gt hlt (Shape.levels_eq_of_same hp hshape hsame)
  rw [List.any_append, h shape hshape (Nat.lt_of_lt_of_le hlt hle), List.any_cons, hnot,
    List.any_nil, Bool.or_false, Bool.or_false]

/-- On the way out, all that was seen on the way is in the store. -/
theorem leave (h : SeenAs seen s.store bound) {named : Forest (Planned × String)}
    (hwalked : Walked policy named s s') :
    SeenAs (seen ++ (named.map (·.1)).preorder.map (·.shape)) s'.store bound := by
  intro shape hshape hlt
  have hperm : (named.postorder.map (·.1.shape)).any (·.same shape) =
      (named.preorder.map (·.1.shape)).any (·.same shape) :=
    (named.postorder_perm_preorder.map _).any_eq
  rw [← Store.any_same_shapes, hwalked.shapes_eq, List.any_append, List.any_append, hperm,
    Store.any_same_shapes, h shape hshape hlt, Forest.preorder_map, List.map_map]
  rfl

end SeenAs

/-- The walk of the first field, and then that of the others, to which all that it met is seen. -/
private theorem walked_cons {key : String} {rest : Shape} {bound : Nat}
    {first : Forest (Planned × String)}
    (hfirst : first.map (·.1) = walkType (chain ++ [key]) type seen)
    (hwalked : Walked policy first s s₁) (hseen : SeenAs seen s.store bound)
    (hrest : ∀ {seen}, SeenAs seen s₁.store bound → ∃ later : Forest (Planned × String),
      later.map (·.1) = walkFields chain rest seen ∧ Walked policy later s₁ s') :
    ∃ named : Forest (Planned × String),
      named.map (·.1) = walkFields chain ((key, type) :: rest) seen ∧ Walked policy named s s' := by
  obtain ⟨later, hlater, hend⟩ := hrest (hseen.leave hwalked)
  refine ⟨first.append later, ?_, hwalked.append hend⟩
  rw [Forest.map_append, hlater, walkFields, hfirst]

/-- Writing fields goes along the walk. -/
theorem Writes.walked (h : Writes policy context fields s lines s') {bound : Nat}
    (hp : ∀ field ∈ fields, field.2.Proper) (hb : ∀ field ∈ fields, field.2.levels < bound)
    (hseen : SeenAs seen s.store bound) :
    ∃ named : Forest (Planned × String),
      named.map (·.1) = walkFields context.chain fields seen ∧ Walked policy named s s' := by
  -- The walk has seen the shapes whose fields are being written, and the store has not: `bound` keeps them
  -- apart, as it is the number of levels of the innermost one.
  induction h generalizing seen bound with
  | nil => exact ⟨.nil, by rw [walkFields, Forest.map], .nil rfl rfl⟩
  | plain hn _ ih =>
      rw [List.forall_mem_cons] at hp hb
      refine walked_cons ?_ (.nil rfl rfl) hseen (ih hp.2 hb.2)
      rw [walkType_of_none hn, Forest.map]
  | @known context s s' key type rest lines nested known hn hf _ ih =>
      rw [List.forall_mem_cons] at hp hb
      have hproper := hp.1.fields (FieldType.fields_of_nested? hn)
      have hlt : nested.levels < bound :=
        FieldType.levels_of_some (FieldType.fields_of_nested? hn) ▸ hb.1
      have hnote : Walked policy .nil s (s.note (.reused known.name)) := .nil rfl rfl
      refine walked_cons ?_ hnote hseen (ih hp.2 hb.2)
      rw [walkType_of_some hn, walk_of_seen (hseen.any_of_known hproper hlt hf), Forest.map]
  | @fresh context s s₁ s' key type rest inner lines nested hn hf hin _ ihin ih =>
      rw [List.forall_mem_cons] at hp hb
      have hproper := hp.1.fields (FieldType.fields_of_nested? hn)
      have hlt : nested.levels < bound :=
        FieldType.levels_of_some (FieldType.fields_of_nested? hn) ▸ hb.1
      have henter : SeenAs (seen ++ [nested]) (s.opened policy (context.child key)).store
          nested.levels := by
        rw [store_opened]
        exact hseen.enter hproper (Nat.le_of_lt hlt)
      obtain ⟨below, hbelow, hinside⟩ :=
        ihin hproper.2 (fun field hfield => Shape.levels_lt_of_mem hfield) henter
      refine walked_cons ?_ hinside.around hseen (ih hp.2 hb.2)
      rw [walkType_of_some hn, walk_of_unseen (hseen.any_of_unknown hproper hlt hf), Forest.map,
        hbelow, Forest.map]
      rfl

/-- Declaring a shape goes along its walk. -/
theorem declare_walked (policy : Collision) (hp : shape.Proper) (context : Context)
    (s : Synthesis) : ∃ named : Forest (Planned × String),
      named.map (·.1) = walk context.name context.chain shape s.store.shapes ∧
        Walked policy named s (s.declare policy shape context).2 := by
  rcases declare_cases policy hp context s with ⟨known, hf, heq⟩ | ⟨lines, s₁, hemits, heq⟩
  · have hseen : s.store.shapes.any (·.same shape) = true := by
      rw [Store.any_same_shapes, hf, Option.isSome_some]
    rw [heq, walk_of_seen hseen]
    exact ⟨.nil, rfl, .nil rfl rfl⟩
  · have hseen : s.store.shapes.any (·.same shape) = false := by
      rw [Store.any_same_shapes, hemits.unknown, Option.isSome_none]
    have henter : SeenAs (s.store.shapes ++ [shape]) (s.opened policy context).store
        shape.levels := by
      rw [store_opened]
      exact (SeenAs.of_store s.store shape.levels).enter hp (Nat.le_refl _)
    obtain ⟨below, hbelow, hinside⟩ :=
      hemits.written.walked hp.2 (fun field hfield => Shape.levels_lt_of_mem hfield) henter
    rw [heq, walk_of_unseen hseen]
    exact ⟨_, by rw [Forest.map, hbelow, Forest.map], hinside.around⟩

/-- **Names are settled by first occurrence.** A shape is declared in a store. What is new are the first
occurrences on the walk from the shape that the store does not know. In the order in which the walk comes to
them, each of them has the name that is due to its wish, where the names of the store and those settled before
are taken. In the order in which the walk leaves them, their declarations are behind those of the store. -/
theorem names_by_first_occurrence (policy : Collision) (hp : shape.Proper) (context : Context)
    (store : Store) :
    ∃ named : Forest (Planned × String),
      named.map (·.1) = walk context.name context.chain shape store.shapes ∧
      Settled policy store.names named.preorder ∧
      ∃ added, ((start store).declare policy shape context).2.store.entries =
          store.entries ++ added ∧
        added.map (fun d => (d.name, d.shape)) =
          named.postorder.map fun (planned, name) => (name, planned.shape) := by
  obtain ⟨named, hnamed, hwalked⟩ := declare_walked policy hp context (start store)
  obtain ⟨added, hadded⟩ := declare_track (tracks_extends policy) hp context (start store)
  have hentries : ((start store).declare policy shape context).2.store.entries =
      store.entries ++ added := hadded.symm
  refine ⟨named, hnamed, hwalked.settled, added, hentries, ?_⟩
  -- The names of the whole store are known, and those of the seed are cancelled; so it goes with shapes.
  have hnames : added.map (·.name) = named.postorder.map (·.2) := by
    have hall := hwalked.names_eq
    rw [Store.names, hentries, List.map_append] at hall
    exact List.append_cancel_left hall
  have hshapes : added.map (·.shape) = named.postorder.map (·.1.shape) := by
    have hall := hwalked.shapes_eq
    rw [Store.shapes, hentries, List.map_append] at hall
    exact List.append_cancel_left hall
  rw [← List.zip_map', hnames, hshapes, List.zip_map']

/-- Two fields with the name `AB`, one of them in a field that comes first. -/
def twoWays : Shape :=
  [("a", ⟨.object, "object", false, false, some [
      ("b", ⟨.object, "object", false, false, some [
        ("x", ⟨.string, "string", false, false, none⟩)]⟩)]⟩),
    ("aB", ⟨.object, "object", false, false, some [
      ("y", ⟨.number, "number", false, false, none⟩)]⟩)]

/-- The first one met keeps its name. -/
theorem names_by_first_occurrence_twoWays :
    twoWays.Proper ∧
      wishes (walk (some "Root") [] twoWays []).preorder = ["Root", "A", "AB", "AB"] ∧
      ∃ named : Forest (Planned × String), named.map (·.1) = walk (some "Root") [] twoWays [] ∧
        Settled .disambiguate [] named.preorder ∧
        named.postorder.map (·.2) = ["AB", "A", "AB2", "Root"] := by
  have hp : twoWays.Proper := by
    have hleaf : ∀ (key : String) (kind : TypeKind) (label : String), FieldType.Proper
        ⟨.object, "object", false, false, some [(key, ⟨kind, label, false, false, none⟩)]⟩ :=
      fun key _ _ => .node rfl (List.pairwise_singleton _ key)
        (List.forall_mem_singleton.mpr (.leaf rfl))
    refine ⟨by decide, List.forall_mem_cons.mpr ⟨?_, List.forall_mem_singleton.mpr (hleaf _ _ _)⟩⟩
    exact .node rfl (by decide) (List.forall_mem_singleton.mpr (hleaf _ _ _))
  obtain ⟨named, hnamed, hsettled, added, hentries, hadded⟩ :=
    names_by_first_occurrence .disambiguate hp (.root "Root" ⟨false, false⟩) .empty
  refine ⟨hp, by decide +kernel, named, hnamed, hsettled, ?_⟩
  have hnames : ((start .empty).declare .disambiguate twoWays
      (.root "Root" ⟨false, false⟩)).2.store.names = ["AB", "A", "AB2", "Root"] := by
    decide +kernel
  have hpostorder := congrArg (List.map Prod.fst) hadded
  rw [List.map_map, List.map_map] at hpostorder
  rw [← hnames, Store.names, hentries]
  exact hpostorder.symm

end Synthesis

end SampleTypes

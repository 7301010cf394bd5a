import SampleTypes.Proofs.Graph.Composition
import SampleTypes.Proofs.Inference

/-!
# Sharing is not seen

A graph that does not lead back to itself can be unfolded into a document: every entry of a keyed node gets a
document of its own, also where several entries lead to one node, and a sequence becomes an array of its first
element (`Graph.Unfolds`). Which data stand in the leaves does not matter.

A graph and a document that it unfolds into cannot be told apart by inference, nor by anything that is built
(`sharing_unobservable`). The proof goes along the unfolding: at each node, both types are put together from
the types of the parts.
-/

namespace SampleTypes

namespace Graph

variable {graph : Graph} {root node : Nat} {value : Json} {policy : Policy}

/-- Some route from the root passes the node. -/
def Reaches (graph : Graph) (root node : Nat) : Prop :=
  ∃ route, graph.Leads root route ∧ node ∈ route.nodes root

/-- The node can be written out as the document. A repeated key keeps its first place and its last value, as
in any document. -/
inductive Unfolds (graph : Graph) : Nat → Json → Prop
  | text {node : Nat} (hlook : graph.look node = .text) (s : String) :
      Unfolds graph node (.string s)
  | numeric {node : Nat} (hlook : graph.look node = .numeric) (n : Json.Number) :
      Unfolds graph node (.number n)
  | boolean {node : Nat} (hlook : graph.look node = .boolean) (b : Bool) :
      Unfolds graph node (.bool b)
  | absent {node : Nat} (hlook : graph.look node = .absent) : Unfolds graph node .null
  | emptySequence {node : Nat} (hlook : graph.look node = .sequence none) :
      Unfolds graph node (.array [])
  | sequence {node first : Nat} {item : Json} (hlook : graph.look node = .sequence (some first))
      (hfirst : Unfolds graph first item) : Unfolds graph node (.array [item])
  | keyed {node : Nat} {entries : List (String × Nat)} (value : String × Nat → Json)
      (hlook : graph.look node = .keyed entries)
      (hentries : ∀ entry ∈ entries, Unfolds graph entry.2 (value entry)) :
      Unfolds graph node (.object (Entries.ofList (entries.map fun entry => (entry.1, value entry))))

/-! ## Routes -/

theorem Reaches.self (graph : Graph) (root : Nat) : graph.Reaches root root :=
  ⟨[], .here, List.mem_cons_self⟩

theorem Reaches.of_part {part : String × Nat} (hpart : part ∈ graph.parts root)
    (h : graph.Reaches part.2 node) : graph.Reaches root node := by
  obtain ⟨route, hleads, hmem⟩ := h
  obtain ⟨position, hposition⟩ := List.getElem?_of_mem hpart
  exact ⟨⟨position, part.1, part.2⟩ :: route, .turn hposition hleads,
    List.mem_cons_of_mem _ hmem⟩

/-- What holds of the root, and of the parts of whatever it holds of, holds of all that is reached. -/
theorem Reaches.induction {motive : Nat → Prop} (h : graph.Reaches root node) (start : motive root)
    (step : ∀ node, motive node → ∀ part ∈ graph.parts node, motive part.2) : motive node := by
  obtain ⟨route, hleads, hmem⟩ := h
  induction hleads with
  | here =>
      cases List.mem_singleton.mp hmem
      exact start
  | turn hpart _ ih =>
      rcases List.mem_cons.mp hmem with rfl | hmem
      · exact start
      · exact ih (step _ start _ (List.mem_of_getElem? hpart)) hmem

/-- Where nothing is repeated, the parts of a node come before it. -/
theorem parts_induction {motive : Nat → Prop} (h : ¬graph.Repeats root)
    (step : ∀ node, (∀ part ∈ graph.parts node, motive part.2) → motive node) : motive root := by
  -- Questions end on any graph, so the induction is on them. That no route comes back to what is around is
  -- what lets every node be entered.
  have hclear : ∀ visit : Visit, (∀ route, ¬graph.Hits visit.ancestors visit.node route) →
      motive visit.node := by
    intro visit
    induction visit using (wellFounded_asks graph).induction with
    | h visit ih =>
        intro hclear
        refine step visit.node fun part hpart => ?_
        have hnot : visit.node ∉ visit.ancestors := fun hmem =>
          hclear [] (.here (View.isContainer_of_mem_parts hpart) hmem)
        obtain ⟨position, hposition⟩ := List.getElem?_of_mem hpart
        refine ih _ (.part hnot hpart) fun route hhits => ?_
        exact hclear (⟨position, part.1, part.2⟩ :: route) (.turn hnot hposition hhits)
  refine hclear ⟨[], root⟩ fun route hhits => h ?_
  exact repeats_iff.mpr ⟨route, hits_nil_iff.mp hhits⟩

/-! ## Unfolding -/

/-- A node can be unfolded if nothing is repeated below it and every node there is of a class that documents
have. -/
theorem exists_unfolds (hacyclic : ¬graph.Repeats root)
    (hother : ∀ node, graph.Reaches root node → graph.look node ≠ .other) :
    ∃ value, graph.Unfolds root value := by
  refine parts_induction (motive := fun node =>
    (∀ other, graph.Reaches node other → graph.look other ≠ .other) →
      ∃ value, graph.Unfolds node value) hacyclic (fun node ih hother => ?_) hother
  -- What a part reaches is reached from the node.
  have hparts : ∀ part ∈ graph.parts node, ∃ value, graph.Unfolds part.2 value :=
    fun part hpart => ih part hpart fun other hreaches => hother other (.of_part hpart hreaches)
  rw [parts] at hparts
  cases hlook : graph.look node with
  | text => exact ⟨_, .text hlook ""⟩
  | numeric => exact ⟨_, .numeric hlook (.natural 0)⟩
  | boolean => exact ⟨_, .boolean hlook false⟩
  | absent => exact ⟨_, .absent hlook⟩
  | other => exact absurd hlook (hother node (.self graph node))
  | sequence first? =>
      rw [hlook] at hparts
      cases first? with
      | none => exact ⟨_, .emptySequence hlook⟩
      | some first =>
          obtain ⟨item, hitem⟩ := hparts ("0", first) List.mem_cons_self
          exact ⟨_, .sequence hlook hitem⟩
  | keyed entries =>
      rw [hlook] at hparts
      choose! value hvalue using hparts
      exact ⟨_, .keyed value hlook hvalue⟩

/-- No object of an unfolding has a key twice. -/
theorem Unfolds.proper (h : graph.Unfolds node value) : value.Proper := by
  induction h with
  | text _ s => exact .string s
  | numeric _ n => exact .number n
  | boolean _ b => exact .bool b
  | absent => exact .null
  | emptySequence => exact .array fun _ hitem => absurd hitem List.not_mem_nil
  | sequence _ _ ih => exact .array (List.forall_mem_singleton.mpr ih)
  | keyed value _ _ ih =>
      refine .object (Entries.distinct_ofList _) fun member hmember => ?_
      obtain ⟨entry, hentry, rfl⟩ := List.mem_map.mp (Entries.mem_of_mem_ofList hmember)
      exact ih entry hentry

/-! ## Inference -/

/-- The types of entries that are unfolded, one for each of them. -/
private theorem inferMembers_unfolded (policy : Policy) (entries : List (String × Nat))
    (value : String × Nat → Json) :
    Json.inferMembers policy (Entries.ofList (entries.map fun entry => (entry.1, value entry))) =
      Entries.ofList (entries.map fun entry => (entry.1, (value entry).infer policy)) := by
  rw [Json.inferMembers_eq_map, ← Entries.ofList_map, List.map_map]
  rfl

/-- The type of a keyed value does not depend on whether its entries have been put together. -/
private theorem keyedOf_ofList (policy : Policy) (entries : List (String × FieldType)) :
    policy.keyedOf (Entries.ofList entries) = policy.keyedOf entries := by
  rw [Policy.keyedOf, Policy.keyedOf, Entries.isEmpty_ofList,
    Entries.ofList_of_distinct (Entries.distinct_ofList entries)]

/-- **A node has the type of its unfolding.** -/
theorem Unfolds.infer_eq (h : graph.Unfolds node value) (policy : Policy) :
    graph.infer policy node = .ok (value.infer policy) := by
  induction h with
  | text hlook _ | numeric hlook _ | boolean hlook _ | absent hlook | emptySequence hlook =>
      rw [infer_eq_ok_iff, parts, hlook]
      exact ⟨[], .nil, by rw [Json.infer]; rfl⟩
  | @sequence node first item hlook _ ih =>
      rw [infer_eq_ok_iff, parts, hlook]
      refine ⟨[("0", item.infer policy)], .cons ⟨rfl, ih⟩ .nil, ?_⟩
      rw [Json.infer, Json.inferItems]
      rfl
  | @keyed node entries value hlook _ ih =>
      rw [infer_eq_ok_iff, parts, hlook]
      refine ⟨entries.map fun entry => (entry.1, (value entry).infer policy), ?_, ?_⟩
      · rw [View.parts, List.forall₂_map_right_iff, List.forall₂_same]
        exact fun entry hentry => ⟨rfl, ih entry hentry⟩
      · -- The document has repeated keys merged already, and merging once more changes nothing.
        rw [Json.infer, inferMembers_unfolded, keyedOf_ofList]
        rfl

/-- A node has the shape of its unfolding, or none for the same reason. -/
theorem Unfolds.inferShape_eq (h : graph.Unfolds node value) (policy : Policy) :
    graph.inferShape policy node = value.inferShape policy := by
  cases h with
  | text hlook _ | numeric hlook _ | boolean hlook _ | absent hlook | emptySequence hlook
  | sequence hlook _ =>
      rw [inferShape_of_not_keyed policy (by simp [hlook]), hlook]
      rfl
  | @keyed _ entries value hlook hentries =>
      rw [Json.inferShape, inferMembers_unfolded,
        Entries.ofList_of_distinct (Entries.distinct_ofList _), inferShape_eq_ok_iff hlook]
      refine ⟨_, ?_, rfl⟩
      rw [List.forall₂_map_right_iff, List.forall₂_same]
      exact fun entry hentry => ⟨rfl, (hentries entry hentry).infer_eq policy⟩

end Graph

/-- **Sharing is not seen.** A node below which nothing is repeated, and all is of a class that documents
have, can be unfolded into a document. Whatever document it unfolds into, no key comes twice in an object of
it, and the two have the same type and the same shape by every policy; builds from them yield the same text
and make the same declarations in every store. -/
theorem sharing_unobservable {graph : Graph} {root : Nat} (hacyclic : ¬graph.Repeats root)
    (hother : ∀ node, graph.Reaches root node → graph.look node ≠ .other) :
    (∃ value, graph.Unfolds root value) ∧ ∀ value, graph.Unfolds root value →
      value.Proper ∧ ∀ options : Options,
        (Source.node graph root).infer options.policy =
          (Source.document value).infer options.policy ∧
        (Source.node graph root).inferShape options.policy =
          (Source.document value).inferShape options.policy ∧
        buildText (.node graph root) options = buildText (.document value) options ∧
        ∀ seed, buildInto (.node graph root) options seed =
          buildInto (.document value) options seed := by
  refine ⟨Graph.exists_unfolds hacyclic hother, fun value h => ⟨h.proper, fun options => ?_⟩⟩
  have hshape := h.inferShape_eq options.policy
  have hbuild : ∀ seed, buildInto (.node graph root) options seed =
      buildInto (.document value) options seed := by
    intro seed
    rw [buildInto, buildInto, Source.inferShape, Source.inferShape, hshape]
  refine ⟨h.infer_eq options.policy, hshape, ?_, hbuild⟩
  rw [buildText, buildText, hbuild]

/-- Two entries lead to one node, and so does a sequence. The first key comes again at the end. -/
def sharedBox : Graph :=
  ⟨#[.keyed [("a", 1), ("b", 1), ("list", 2), ("a", 3)], .keyed [("x", 3)], .sequence (some 1),
    .numeric]⟩

/-- The shared node is written out wherever it is met, and the first key has its last value. -/
def sharedBoxWrittenOut : Json :=
  .object [("a", .number (.natural 1)), ("b", .object [("x", .number (.natural 2))]),
    ("list", .array [.object [("x", .number (.natural 2))]])]

theorem unfolds_sharedBox : sharedBox.Unfolds 0 sharedBoxWrittenOut := by
  have hnumber := Graph.Unfolds.numeric (rfl : sharedBox.look 3 = .numeric)
  have hbox := Graph.Unfolds.keyed (fun _ => .number (.natural 2))
    (rfl : sharedBox.look 1 = .keyed [("x", 3)])
    (List.forall_mem_singleton.mpr (hnumber (.natural 2)))
  have hlist := Graph.Unfolds.sequence (rfl : sharedBox.look 2 = .sequence (some 1)) hbox
  refine .keyed (fun entry => match entry.2 with
    | 1 => .object [("x", .number (.natural 2))]
    | 2 => .array [.object [("x", .number (.natural 2))]]
    | _ => .number (.natural 1)) (rfl : sharedBox.look 0 = .keyed _) ?_
  simp only [List.forall_mem_cons, List.not_mem_nil, false_implies, implies_true, and_true]
  exact ⟨hbox, hbox, hlist, hnumber _⟩

theorem sharing_unobservable_sharedBox :
    ¬sharedBox.Repeats 0 ∧ (∀ node, sharedBox.Reaches 0 node → sharedBox.look node ≠ .other) ∧
      ∀ options, buildText (.node sharedBox 0) options =
        buildText (.document sharedBoxWrittenOut) options := by
  have hacyclic : ¬sharedBox.Repeats 0 :=
    Graph.exists_infer_iff.mp ⟨_, unfolds_sharedBox.infer_eq {}⟩
  have hother : ∀ node, sharedBox.Reaches 0 node → sharedBox.look node ≠ .other := by
    intro node hreaches
    have hlt : node < 4 := hreaches.induction (motive := (· < 4)) (by decide) (by decide)
    match node with
    | 0 | 1 | 2 | 3 => nofun
  refine ⟨hacyclic, hother, fun options => ?_⟩
  obtain ⟨-, hall⟩ := sharing_unobservable hacyclic hother
  obtain ⟨-, hsame⟩ := hall _ unfolds_sharedBox
  exact (hsame options).2.2.1

end SampleTypes

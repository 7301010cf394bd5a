import SampleTypes.Proofs.Store.Tuples
import SampleTypes.Synthesis

/-!
# What a synthesis does

`Writes` says how fields are written, as a relation: one field after the other, each of them plain, or
with a shape that the store knows, or with a shape that gets a declaration of its own once the fields
in it are written. Writing fields is an instance of it (`writes_writeFields`), and from here on nothing
unfolds `writeFields`.

* `Writes.unknown`: the shape whose fields are written is still unknown afterwards.
* `Writes.covers`: afterwards the store knows the shapes of all fields.
* `Writes.lines_eq`: the lines are those of the fields' tuples in the store.
* `Writes.trackIn`, `declare_track`: what every step of a synthesis respects, the whole respects.
-/

namespace SampleTypes.Synthesis

variable {policy : Collision} {context : Context} {shape nested : Shape} {s s' s₁ : Synthesis}
  {lines : String} {fields : Shape} {wish : String}

/-! ## Single steps -/

@[simp] theorem store_emit (s : Synthesis) (declaration : Declaration) :
    (s.emit declaration).store = s.store.push declaration := rfl

/-- To emit a declaration takes no name: it was taken when it was claimed. -/
@[simp] theorem taken_emit (s : Synthesis) (declaration : Declaration) :
    (s.emit declaration).taken = s.taken := rfl

@[simp] theorem store_claim (policy : Collision) (wish : String) (s : Synthesis) :
    (s.claim policy wish).2.store = s.store := by
  cases policy <;> (simp only [claim]; split <;> rfl)

/-- The declaration that a shape gets in a state. -/
def declared (policy : Collision) (context : Context) (shape : Shape) (lines : String)
    (s : Synthesis) : Declaration :=
  ⟨Naming.claim policy s.taken (Naming.candidate context.name), shape,
    Rendering.declaration (Naming.claim policy s.taken (Naming.candidate context.name)) lines
      context.mode⟩

/-- The state in which the fields of a new declaration are written. -/
def opened (policy : Collision) (context : Context) (s : Synthesis) : Synthesis :=
  (s.claim policy (Naming.candidate context.name)).2

@[simp] theorem store_opened (policy : Collision) (context : Context) (s : Synthesis) :
    (s.opened policy context).store = s.store := store_claim _ _ _

/-- Only a name that others give way to is taken from then on. -/
theorem taken_opened (policy : Collision) (context : Context) (s : Synthesis) :
    (s.opened policy context).taken = match policy with
      | .preserve => s.taken
      | .disambiguate => Naming.fresh s.taken (Naming.candidate context.name) :: s.taken := by
  cases policy <;> (simp only [opened, claim]; split <;> rfl)

/-- What is noted when a name is claimed depends on the names taken alone. -/
theorem events_opened (policy : Collision) (context : Context) (s : Synthesis) :
    (s.opened policy context).events =
      let wish := Naming.candidate context.name
      let name := Naming.claim policy s.taken wish
      if name == wish then s.events else s.events ++ [.renamed wish name] := by
  cases policy <;> (simp only [opened, claim]; split <;> rfl)

/-- A known shape is reused, and nothing else changes. -/
theorem declare_of_known {known : Declaration} (h : s.store.find? shape = some known) :
    s.declare policy shape context = (known, s.note (.reused known.name)) := by
  simp only [declare, declareWith, h]

/-- An unknown shape is opened, its fields are written, and then it is emitted. -/
theorem declare_of_unknown (h : s.store.find? shape = none) :
    s.declare policy shape context =
      let written := writeFields policy context shape (s.opened policy context)
      (s.declared policy context shape written.1,
        written.2.emit (s.declared policy context shape written.1)) := by
  simp only [declare, declareWith, h]
  rfl

/-- A field without a shape of its own is written with its own label. -/
theorem labelOf_of_none {type : FieldType} (h : type.nested? = none) :
    labelOf policy context type s = (type.label, s) := by
  obtain ⟨kind, label, optional, isArray, fields?⟩ := type
  cases fields? with
  | none => rw [labelOf]
  | some fields =>
      rw [FieldType.nested?_mk_some, ite_eq_right_iff] at h
      rw [labelOf, if_neg fun hd => Option.some_ne_none _ (h hd)]

/-- A field with a shape of its own is written with the name of the shape's declaration. -/
theorem labelOf_of_some {type : FieldType} (h : type.nested? = some nested) :
    labelOf policy context type s =
      ((s.declare policy nested context).1.name, (s.declare policy nested context).2) := by
  obtain ⟨kind, label, optional, isArray, fields?⟩ := type
  cases FieldType.fields_of_nested? h
  rw [FieldType.nested?_mk_some, Option.ite_none_right_eq_some] at h
  rw [labelOf, if_pos h.1]
  rfl

/-! ## Fields, one after the other -/

/-- How fields are written: from one state to another, yielding lines. -/
inductive Writes (policy : Collision) : Context → Shape → Synthesis → String → Synthesis → Prop
  | nil {context : Context} {s : Synthesis} : Writes policy context [] s "" s
  | plain {context : Context} {s s' : Synthesis} {key : String} {type : FieldType} {rest : Shape}
      {lines : String} (hn : type.nested? = none) (h : Writes policy context rest s lines s') :
      Writes policy context ((key, type) :: rest) s
        (Rendering.fieldLine key type.label type context.mode ++ lines) s'
  | known {context : Context} {s s' : Synthesis} {key : String} {type : FieldType} {rest : Shape}
      {lines : String} {nested : Shape} {known : Declaration} (hn : type.nested? = some nested)
      (hf : s.store.find? nested = some known)
      (h : Writes policy context rest (s.note (.reused known.name)) lines s') :
      Writes policy context ((key, type) :: rest) s
        (Rendering.fieldLine key known.name type context.mode ++ lines) s'
  | fresh {context : Context} {s s₁ s' : Synthesis} {key : String} {type : FieldType}
      {rest : Shape} {inner lines : String} {nested : Shape} (hn : type.nested? = some nested)
      (hf : s.store.find? nested = none)
      (hin : Writes policy (context.child key) nested (s.opened policy (context.child key)) inner s₁)
      (h : Writes policy context rest
        (s₁.emit (s.declared policy (context.child key) nested inner)) lines s') :
      Writes policy context ((key, type) :: rest) s
        (Rendering.fieldLine key (s.declared policy (context.child key) nested inner).name type
          context.mode ++ lines) s'

/-- Fields are written as the relation says if that holds of the fields of every type in them. -/
private theorem writes_of_types
    (ih : ∀ field ∈ fields, ∀ nested, field.2.fields = some nested → ∀ context s,
      Writes policy context nested s (writeFields policy context nested s).1
        (writeFields policy context nested s).2) (context : Context) (s : Synthesis) :
    Writes policy context fields s (writeFields policy context fields s).1
      (writeFields policy context fields s).2 := by
  -- This induction goes along the fields; `ih` goes into the shapes inside them.
  induction fields generalizing s with
  | nil =>
      rw [writeFields]
      exact .nil
  | cons field rest ihrest =>
      obtain ⟨key, type⟩ := field
      have hrest := ihrest fun field hfield => ih field (List.mem_cons_of_mem _ hfield)
      rw [writeFields]
      cases hn : type.nested? with
      | none =>
          rw [labelOf_of_none hn]
          exact .plain hn (hrest s)
      | some nested =>
          rw [labelOf_of_some hn]
          cases hf : s.store.find? nested with
          | some known =>
              rw [declare_of_known hf]
              exact .known hn hf (hrest _)
          | none =>
              rw [declare_of_unknown hf]
              exact .fresh hn hf
                (ih _ List.mem_cons_self nested (FieldType.fields_of_nested? hn) _ _) (hrest _)

/-- Writing fields does what the relation says. -/
theorem writes_writeFields (policy : Collision) (context : Context) (fields : Shape)
    (s : Synthesis) :
    Writes policy context fields s (writeFields policy context fields s).1
      (writeFields policy context fields s).2 := by
  refine writes_of_types (fun field _ => ?_) context s
  induction field.2 using FieldType.fields_induction with
  | leaf type hnone =>
      intro nested hsome
      rw [hnone] at hsome
      cases hsome
  | node type inner hinner ih =>
      intro nested hsome
      rw [hinner] at hsome
      cases hsome
      exact writes_of_types ih

/-! ## What writing leaves -/

theorem Writes.store_extends (h : Writes policy context fields s lines s') :
    s'.store.Extends s.store := by
  induction h with
  | nil => exact .refl _
  | plain _ _ ih => exact ih
  | known _ _ _ ih => exact ih
  | fresh _ _ _ _ ihin ih =>
      rw [store_opened] at ihin
      exact ihin.trans ((Store.extends_push _ _).trans ih)

/-- Every new declaration is that of a shape in the fields. -/
theorem Writes.within (h : Writes policy context fields s lines s') {d : Declaration}
    (hd : d ∈ s'.store.entries) :
    d ∈ s.store.entries ∨ ∃ field ∈ fields, ∃ nested,
      field.2.nested? = some nested ∧ d.shape.Within nested := by
  induction h with
  | nil => exact .inl hd
  | plain _ _ ih =>
      refine (ih hd).imp_right ?_
      rintro ⟨field, hfield, hrest⟩
      exact ⟨field, List.mem_cons_of_mem _ hfield, hrest⟩
  | known _ _ _ ih =>
      refine (ih hd).imp_right ?_
      rintro ⟨field, hfield, hrest⟩
      exact ⟨field, List.mem_cons_of_mem _ hfield, hrest⟩
  | fresh hn _ _ _ ihin ih =>
      rcases ih hd with hd | ⟨field, hfield, hrest⟩
      · rw [store_emit, Store.entries_push, List.mem_append, List.mem_singleton] at hd
        rcases hd with hd | rfl
        · rw [store_opened] at ihin
          refine (ihin hd).imp_right ?_
          rintro ⟨field, hfield, inner, hinner, hwithin⟩
          exact ⟨_, List.mem_cons_self, _, hn, .deeper hfield hinner hwithin⟩
        · exact .inr ⟨_, List.mem_cons_self, _, hn, .self⟩
      · exact .inr ⟨field, List.mem_cons_of_mem _ hfield, hrest⟩

/-- While its fields are written, a shape stays unknown: what becomes known has fewer levels. -/
theorem Writes.unknown (h : Writes policy context shape s lines s') (hp : shape.Proper)
    (hf : s.store.find? shape = none) : s'.store.find? shape = none := by
  refine Store.find?_eq_none_iff.mpr fun d hd => ?_
  rcases h.within hd with hd | ⟨field, hfield, nested, hn, hwithin⟩
  · exact Store.find?_eq_none_iff.mp hf d hd
  · -- The same shape would have as many levels, but one inside a field has fewer.
    refine Bool.eq_false_iff.mpr fun hsame => ?_
    have hproper : d.shape.Proper := hwithin.proper (hp.of_nested hfield hn)
    have heq : d.shape.levels = shape.levels := Shape.levels_eq_of_same hproper hp hsame
    have hle : d.shape.levels ≤ nested.levels := hwithin.levels_le
    have hlt : nested.levels < shape.levels := Shape.levels_lt_of_nested hfield hn
    omega

/-- After fields are written, the store knows their shapes. -/
theorem Writes.covers (h : Writes policy context fields s lines s')
    (hp : ∀ field ∈ fields, field.2.Proper) : s'.store.Covers fields := by
  induction h with
  | nil =>
      intro field hfield
      exact absurd hfield List.not_mem_nil
  | plain hn h ih =>
      rw [List.forall_mem_cons] at hp
      refine List.forall_mem_cons.mpr ⟨fun nested hsome => ?_, ih hp.2⟩
      rw [hn] at hsome
      cases hsome
  | known hn hf h ih =>
      rw [List.forall_mem_cons] at hp
      refine List.forall_mem_cons.mpr ⟨fun nested hsome => ?_, ih hp.2⟩
      rw [hn] at hsome
      cases hsome
      exact ⟨_, h.store_extends.find? hf⟩
  | fresh hn hf hin h _ ih =>
      rw [List.forall_mem_cons] at hp
      refine List.forall_mem_cons.mpr ⟨fun nested hsome => ?_, ih hp.2⟩
      rw [hn] at hsome
      cases hsome
      -- The declaration is added after its own fields are written, and it is the first of its shape.
      have hproper := hp.1.fields (FieldType.fields_of_nested? hn)
      have hunknown := hin.unknown hproper ((store_opened _ _ _).symm ▸ hf)
      exact ⟨_, h.store_extends.find? (Store.find?_push hunknown (Shape.same_refl hproper))⟩

/-- The lines are those of the fields' tuples. -/
theorem Writes.lines_eq (h : Writes policy context fields s lines s')
    (hp : ∀ field ∈ fields, field.2.Proper) :
    lines = String.join ((s'.store.tuples fields).map (·.line context.mode)) := by
  induction h with
  | nil => rfl
  | plain hn h ih =>
      rw [List.forall_mem_cons] at hp
      rw [Store.tuples, List.map_cons, List.map_cons, String.join_cons, Store.line_tuple,
        Store.labelOf_of_none hn, ← Store.tuples, ← ih hp.2]
  | known hn hf h ih =>
      rw [List.forall_mem_cons] at hp
      rw [Store.tuples, List.map_cons, List.map_cons, String.join_cons, Store.line_tuple,
        Store.labelOf_of_some hn (h.store_extends.find? hf), ← Store.tuples, ← ih hp.2]
  | fresh hn hf hin h _ ih =>
      rw [List.forall_mem_cons] at hp
      have hproper := hp.1.fields (FieldType.fields_of_nested? hn)
      have hunknown := hin.unknown hproper ((store_opened _ _ _).symm ▸ hf)
      have hfound := h.store_extends.find? (Store.find?_push hunknown (Shape.same_refl hproper))
      rw [Store.tuples, List.map_cons, List.map_cons, String.join_cons, Store.line_tuple,
        Store.labelOf_of_some hn hfound, ← Store.tuples, ← ih hp.2]

/-! ## From steps to whole runs -/

/-- A shape that was unknown in the state `s` is emitted in the state `s₁`, its fields written. -/
structure Emits (policy : Collision) (context : Context) (shape : Shape) (s : Synthesis)
    (lines : String) (s₁ : Synthesis) : Prop where
  proper : shape.Proper
  unknown : s.store.find? shape = none
  written : Writes policy context shape (s.opened policy context) lines s₁

namespace Emits

variable (h : Emits policy context shape s lines s₁)

include h

/-- The shape is unknown still when it comes to be emitted. -/
theorem still_unknown : s₁.store.find? shape = none :=
  h.written.unknown h.proper ((store_opened _ _ _).symm ▸ h.unknown)

theorem covers : s₁.store.Covers shape :=
  h.written.covers h.proper.2

theorem store_extends : s₁.store.Extends s.store := by
  have := h.written.store_extends
  rwa [store_opened] at this

/-- The new declaration's text, read off the store in which it is added. -/
theorem text_eq : (s.declared policy context shape lines).text =
    FieldTuple.text context.mode (s.declared policy context shape lines).name
      (s₁.store.tuples shape) := by
  rw [declared, FieldTuple.text, h.written.lines_eq h.proper.2]

theorem find?_emitted : (s₁.emit (s.declared policy context shape lines)).store.find? shape =
    some (s.declared policy context shape lines) :=
  Store.find?_push h.still_unknown (Shape.same_refl h.proper)

end Emits

/-- A relation between states that every step of a synthesis respects: to note an event, and to emit
a declaration if what came between claiming its name and emitting it respects the relation. What is emitted
is asked to meet a condition on shapes and their contexts, which goes over to nested shapes. -/
structure TracksIn (policy : Collision) (C : Context → Shape → Prop)
    (R : Synthesis → Synthesis → Prop) : Prop where
  refl : ∀ s, R s s
  trans : ∀ {s₁ s₂ s₃}, R s₁ s₂ → R s₂ s₃ → R s₁ s₃
  note : ∀ s event, R s (s.note event)
  child : ∀ {context shape field nested}, C context shape → field ∈ shape →
    field.2.nested? = some nested → C (context.child field.1) nested
  emit : ∀ {context shape s lines s₁}, C context shape → Emits policy context shape s lines s₁ →
    R (s.opened policy context) s₁ → R s (s₁.emit (s.declared policy context shape lines))

/-- A relation that every step respects, whatever is emitted. -/
structure Tracks (policy : Collision) (R : Synthesis → Synthesis → Prop) : Prop where
  refl : ∀ s, R s s
  trans : ∀ {s₁ s₂ s₃}, R s₁ s₂ → R s₂ s₃ → R s₁ s₃
  note : ∀ s event, R s (s.note event)
  emit : ∀ {context shape s lines s₁}, Emits policy context shape s lines s₁ →
    R (s.opened policy context) s₁ → R s (s₁.emit (s.declared policy context shape lines))

theorem Tracks.tracksIn {R : Synthesis → Synthesis → Prop} (hR : Tracks policy R) :
    TracksIn policy (fun _ _ => True) R where
  refl := hR.refl
  trans := hR.trans
  note := hR.note
  child _ _ _ := trivial
  emit _ hemits h := hR.emit hemits h

theorem TracksIn.tracks {R : Synthesis → Synthesis → Prop}
    (hR : TracksIn policy (fun _ _ => True) R) : Tracks policy R where
  refl := hR.refl
  trans := hR.trans
  note := hR.note
  emit := hR.emit trivial

/-- What every step respects, writing fields respects. -/
theorem Writes.trackIn {C : Context → Shape → Prop} {R : Synthesis → Synthesis → Prop}
    (hR : TracksIn policy C R) (h : Writes policy context fields s lines s')
    (hp : ∀ field ∈ fields, field.2.Proper)
    (hC : ∀ field ∈ fields, ∀ nested, field.2.nested? = some nested →
      C (context.child field.1) nested) : R s s' := by
  induction h with
  | nil => exact hR.refl _
  | plain _ _ ih =>
      rw [List.forall_mem_cons] at hp hC
      exact ih hp.2 hC.2
  | known _ _ _ ih =>
      rw [List.forall_mem_cons] at hp hC
      exact hR.trans (hR.note _ _) (ih hp.2 hC.2)
  | fresh hn hf hin _ ihin ih =>
      rw [List.forall_mem_cons] at hp hC
      have hproper := hp.1.fields (FieldType.fields_of_nested? hn)
      have hnested := hC.1 _ hn
      have hinside := ihin hproper.2 fun field hfield inner => hR.child hnested hfield
      exact hR.trans (hR.emit hnested ⟨hproper, hf, hin⟩ hinside) (ih hp.2 hC.2)

/-- A shape that is declared is known, or is emitted at the end. -/
theorem declare_cases (policy : Collision) (hp : shape.Proper) (context : Context)
    (s : Synthesis) :
    (∃ known, s.store.find? shape = some known ∧
      s.declare policy shape context = (known, s.note (.reused known.name))) ∨
    ∃ lines s₁, Emits policy context shape s lines s₁ ∧
      s.declare policy shape context = (s.declared policy context shape lines,
        s₁.emit (s.declared policy context shape lines)) := by
  cases hf : s.store.find? shape with
  | some known => exact .inl ⟨known, rfl, declare_of_known hf⟩
  | none =>
      exact .inr ⟨_, _, ⟨hp, hf, writes_writeFields policy context shape _⟩,
        declare_of_unknown hf⟩

/-- What every step respects, declaring a shape respects. -/
theorem declare_trackIn {C : Context → Shape → Prop} {R : Synthesis → Synthesis → Prop}
    (hR : TracksIn policy C R) (hp : shape.Proper) (hC : C context shape) (s : Synthesis) :
    R s (s.declare policy shape context).2 := by
  rcases declare_cases policy hp context s with ⟨known, -, heq⟩ | ⟨lines, s₁, hemits, heq⟩
  · rw [heq]
    exact hR.note _ _
  · rw [heq]
    have hinside := hemits.written.trackIn hR hp.2 fun field hfield nested => hR.child hC hfield
    exact hR.emit hC hemits hinside

/-- A relation that every step respects holds between the beginning and the end of a synthesis. -/
theorem declare_track {R : Synthesis → Synthesis → Prop} (hR : Tracks policy R)
    (hp : shape.Proper) (context : Context) (s : Synthesis) :
    R s (s.declare policy shape context).2 := by
  have hC : (fun _ _ => True : Context → Shape → Prop) context shape := trivial
  exact declare_trackIn hR.tracksIn hp hC s

/-- The declaration that a shape gets is the one that the store then finds for it. -/
theorem declare_find? (policy : Collision) (hp : shape.Proper) (context : Context)
    (s : Synthesis) : (s.declare policy shape context).2.store.find? shape =
      some (s.declare policy shape context).1 := by
  rcases declare_cases policy hp context s with ⟨known, hf, heq⟩ | ⟨lines, s₁, hemits, heq⟩
  · rw [heq]
    exact hf
  · rw [heq]
    exact hemits.find?_emitted

/-- A stretch of a synthesis that only adds declarations, each with a property in the store that is left. -/
def Adds (P : Store → Nat → Declaration → Prop) (s s' : Synthesis) : Prop :=
  s'.store.Extends s.store ∧ ∀ index d, s.store.length ≤ index → s'.store.get? index = some d →
    P s'.store index d

/-- A property that later declarations leave alone holds of all that is added, if it holds of a declaration
when it is emitted. -/
theorem tracksIn_adds {C : Context → Shape → Prop} {P : Store → Nat → Declaration → Prop}
    (child : ∀ {context shape field nested}, C context shape → field ∈ shape →
      field.2.nested? = some nested → C (context.child field.1) nested)
    (stable : ∀ {later store index d}, later.Extends store → P store index d → P later index d)
    (emit : ∀ {context shape s lines s₁}, C context shape → Emits policy context shape s lines s₁ →
      P s₁.store s₁.store.length (s.declared policy context shape lines)) :
    TracksIn policy C (Adds P) where
  refl s := by
    refine ⟨.refl _, fun index d hle hget => ?_⟩
    have hlt : index < s.store.length := (List.getElem?_eq_some_iff.mp hget).1
    omega
  trans := by
    rintro s₁ s₂ s₃ ⟨he, h⟩ ⟨he', h'⟩
    refine ⟨he.trans he', fun index d hle hget => ?_⟩
    by_cases hlt : index < s₂.store.length
    · -- The declaration was there after the first stretch.
      exact stable he' (h index d hle (he'.get?_of_lt hlt hget))
    · exact h' index d (Nat.le_of_not_lt hlt) hget
  note s event := by
    refine ⟨.refl _, fun index d hle hget => ?_⟩
    have hlt : index < s.store.length := (List.getElem?_eq_some_iff.mp hget).1
    omega
  child := child
  emit := by
    rintro context shape s lines s₁ hC hemits ⟨he, h⟩
    rw [store_opened] at he h
    have hpush := Store.extends_push s₁.store (s.declared policy context shape lines)
    refine ⟨he.trans hpush, fun index d hle hget => ?_⟩
    -- What is pushed is emitted; anything else was added while its fields were written.
    rcases Store.get?_push_eq_some.mp hget with hold | ⟨rfl, rfl⟩
    · exact stable hpush (h index d hle hold)
    · exact stable hpush (emit hC hemits)

/-- A synthesis only adds to its store. -/
theorem tracks_extends (policy : Collision) :
    Tracks policy fun s s' => s'.store.Extends s.store where
  refl _ := .refl _
  trans h h' := h.trans h'
  note _ _ := .refl _
  emit hemits _ := hemits.store_extends.trans (Store.extends_push _ _)

/-- Every new declaration is that of the shape or of one nested in it. -/
theorem declare_within (policy : Collision) (hp : shape.Proper) (context : Context)
    (s : Synthesis) {d : Declaration}
    (hd : d ∈ (s.declare policy shape context).2.store.entries) :
    d ∈ s.store.entries ∨ d.shape.Within shape := by
  rcases declare_cases policy hp context s with ⟨known, -, heq⟩ | ⟨lines, s₁, hemits, heq⟩
  · rw [heq] at hd
    exact .inl hd
  · rw [heq, store_emit, Store.entries_push, List.mem_append, List.mem_singleton] at hd
    rcases hd with hd | rfl
    · rcases hemits.written.within hd with hd | ⟨field, hfield, nested, hn, hwithin⟩
      · rw [store_opened] at hd
        exact .inl hd
      · exact .inr (.deeper hfield hn hwithin)
    · exact .inr .self

end SampleTypes.Synthesis

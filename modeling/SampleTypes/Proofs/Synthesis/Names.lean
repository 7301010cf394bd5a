import SampleTypes.Proofs.Naming
import SampleTypes.Proofs.Synthesis.Steps

/-!
# Names and references

Names are claimed on the way down and enter the store on the way up. What a synthesis does to names is
therefore said of a whole stretch of it at once (`Grows`): the names that entered the store are exactly
those that became taken, there are no repetitions among them, none was taken before, and none is blank.
Such stretches can be put one after the other, and a declaration around a stretch makes another one.

References are made on the way up. Every new declaration has been rendered with the names of earlier
ones (`Store.Refers`), whatever the policy is.

* `tracks_grows`, `tracks_refers`: both hold of every synthesis.
-/

namespace SampleTypes

namespace Synthesis

variable {policy : Collision} {context : Context} {shape fields : Shape} {s s' s₁ s₂ s₃ : Synthesis}
  {lines : String}

/-! ## Names -/

/-- A stretch of a synthesis, seen from its names. -/
structure Grows (added : List String) (s s' : Synthesis) : Prop where
  names_eq : s'.store.names = s.store.names ++ added
  taken_iff : ∀ name, name ∈ s'.taken ↔ name ∈ s.taken ∨ name ∈ added
  nodup : added.Nodup
  free : ∀ name ∈ added, name ∉ s.taken
  notBlank : ∀ name ∈ added, Text.isBlank name = false

theorem Grows.nil (hnames : s'.store.names = s.store.names) (htaken : s'.taken = s.taken) :
    Grows [] s s' where
  names_eq := by rw [hnames, List.append_nil]
  taken_iff name := by simp [htaken]
  nodup := List.nodup_nil
  free _ h := absurd h List.not_mem_nil
  notBlank _ h := absurd h List.not_mem_nil

/-- Stretches one after the other: what the second one adds is free after the first. -/
theorem Grows.append {added₁ added₂ : List String} (h : Grows added₁ s₁ s₂)
    (h' : Grows added₂ s₂ s₃) : Grows (added₁ ++ added₂) s₁ s₃ where
  names_eq := by rw [h'.names_eq, h.names_eq, List.append_assoc]
  taken_iff name := by rw [h'.taken_iff, h.taken_iff, List.mem_append, or_assoc]
  nodup := by
    refine List.nodup_append.mpr ⟨h.nodup, h'.nodup, ?_⟩
    rintro name hname _ hother rfl
    exact h'.free name hother ((h.taken_iff name).mpr (.inr hname))
  free := by
    intro name hname
    rcases List.mem_append.mp hname with hname | hname
    · exact h.free name hname
    · intro htaken
      exact h'.free name hname ((h.taken_iff name).mpr (.inl htaken))
  notBlank name hname := (List.mem_append.mp hname).elim (h.notBlank name) (h'.notBlank name)

/-- A declaration around a stretch: its name is claimed before the stretch and added after it. -/
theorem Grows.around {added : List String} (h : Grows added (s.opened .disambiguate context) s₁) :
    Grows (added ++ [(s.declared .disambiguate context shape lines).name]) s
      (s₁.emit (s.declared .disambiguate context shape lines)) := by
  have htaken : (s.opened .disambiguate context).taken =
      (s.declared .disambiguate context shape lines).name :: s.taken :=
    taken_opened .disambiguate context s
  have hfree : (s.declared .disambiguate context shape lines).name ∉ s.taken :=
    Naming.fresh_not_mem s.taken _
  have hblank : Text.isBlank (s.declared .disambiguate context shape lines).name = false :=
    Naming.isBlank_claim .disambiguate s.taken context.name
  -- Only these facts about the name matter: it was free, and it is taken throughout the stretch.
  generalize s.declared .disambiguate context shape lines = d at htaken hfree hblank
  refine ⟨?_, ?_, ?_, ?_, ?_⟩
  · rw [store_emit, Store.names_push, h.names_eq, store_opened, List.append_assoc]
  · intro name
    rw [taken_emit, h.taken_iff, htaken]
    simp only [List.mem_cons, List.mem_append, List.not_mem_nil, or_false]
    tauto
  · refine List.nodup_append.mpr ⟨h.nodup, List.nodup_singleton _, ?_⟩
    rintro name hname other hother rfl
    rw [List.mem_singleton] at hother
    exact h.free name hname (htaken ▸ hother ▸ List.mem_cons_self)
  · intro name hname
    rcases List.mem_append.mp hname with hname | hname
    · intro hmem
      exact h.free name hname (htaken ▸ List.mem_cons_of_mem _ hmem)
    · rw [List.mem_singleton.mp hname]
      exact hfree
  · intro name hname
    rcases List.mem_append.mp hname with hname | hname
    · exact h.notBlank name hname
    · rw [List.mem_singleton.mp hname]
      exact hblank

/-- Every stretch of a synthesis with fresh names is of this kind. -/
theorem tracks_grows : Tracks .disambiguate fun s s' => ∃ added, Grows added s s' where
  refl s := ⟨[], .nil rfl rfl⟩
  trans := by
    rintro s₁ s₂ s₃ ⟨added₁, h⟩ ⟨added₂, h'⟩
    exact ⟨added₁ ++ added₂, h.append h'⟩
  note s event := ⟨[], .nil rfl rfl⟩
  emit := by
    rintro context shape s lines s₁ - ⟨added, h⟩
    exact ⟨_, h.around⟩

/-- A declaration that is added for fields is named after a chain of fields. -/
theorem Writes.name_of_new (h : Writes policy context fields s lines s') {index : Nat}
    {d : Declaration} (hle : s.store.length ≤ index) (hget : s'.store.get? index = some d) :
    ∃ chain taken,
      d.name = Naming.claim policy taken (Naming.candidate (some (Naming.derived chain))) := by
  induction h with
  | nil =>
      have hlt := (List.getElem?_eq_some_iff.mp hget).1
      exact absurd hlt (Nat.not_lt_of_le hle)
  | plain _ _ ih => exact ih hle hget
  | known _ _ _ ih => exact ih hle hget
  | @fresh context s s₁ _ key _ _ inner _ nested _ _ _ h ihin ih =>
      by_cases hle' :
          (s₁.emit (s.declared policy (context.child key) nested inner)).store.length ≤ index
      · exact ih hle' hget
      · -- It was there when the fields after the first one were still to be written.
        have hbefore := h.store_extends.get?_of_lt (Nat.lt_of_not_le hle') hget
        rcases Store.get?_push_eq_some.mp hbefore with hin | ⟨-, rfl⟩
        · rw [store_opened] at ihin
          exact ihin hle hin
        · exact ⟨_, _, rfl⟩

/-- Every declaration that a store has after fields are written was there before, or is named after a chain
of fields. -/
theorem Writes.name_eq (h : Writes policy context fields s lines s') {d : Declaration}
    (hd : d ∈ s'.store.entries) :
    d ∈ s.store.entries ∨ ∃ chain taken,
      d.name = Naming.claim policy taken (Naming.candidate (some (Naming.derived chain))) := by
  obtain ⟨index, hget⟩ := List.mem_iff_getElem?.mp hd
  by_cases hle : s.store.length ≤ index
  · exact .inr (h.name_of_new hle hget)
  · have hbefore := h.store_extends.get?_of_lt (Nat.lt_of_not_le hle) hget
    exact .inl (List.mem_of_getElem? hbefore)

/-- A new declaration has the name wished for the shape, or is named after a chain of fields; and in
both cases the name may have got a number. -/
theorem declare_name_eq (hp : shape.Proper) (context : Context) (s : Synthesis) {d : Declaration}
    (hd : d ∈ (s.declare policy shape context).2.store.entries) :
    d ∈ s.store.entries ∨ ∃ wish taken,
      d.name = Naming.claim policy taken (Naming.candidate wish) ∧
        (wish = context.name ∨ ∃ chain, wish = some (Naming.derived chain)) := by
  rcases declare_cases policy hp context s with ⟨known, -, heq⟩ | ⟨lines, s₁, hemits, heq⟩
  · rw [heq] at hd
    exact .inl hd
  · rw [heq, store_emit, Store.entries_push, List.mem_append, List.mem_singleton] at hd
    rcases hd with hd | rfl
    · rcases hemits.written.name_eq hd with hd | ⟨chain, taken, hname⟩
      · rw [store_opened] at hd
        exact .inl hd
      · exact .inr ⟨_, taken, hname, .inr ⟨chain, rfl⟩⟩
    · exact .inr ⟨_, _, rfl, .inl rfl⟩

end Synthesis

/-! ## References -/

/-- The declaration is rendered from its fields' tuples, and each of its fields with a shape of its own
has the name of the shape's declaration, which stands before the given index. -/
structure Store.Refers (store : Store) (index : Nat) (declaration : Declaration) : Prop where
  rendered : ∃ mode,
    declaration.text = FieldTuple.text mode declaration.name (store.tuples declaration.shape)
  earlier : ∀ field ∈ declaration.shape, ∀ nested, field.2.nested? = some nested →
    ∃ position target, store.position? nested = some position ∧ position < index ∧
      store.get? position = some target ∧ store.labelOf field.2 = target.name

namespace Store

variable {store later : Store} {index : Nat} {declaration : Declaration}

theorem Refers.covers (h : store.Refers index declaration) : store.Covers declaration.shape := by
  intro field hfield nested hn
  obtain ⟨position, target, hposition, -, hget, -⟩ := h.earlier field hfield nested hn
  exact ⟨target, find?_eq_some_iff.mpr ⟨position, hposition, hget⟩⟩

/-- References stay right in every later store. -/
theorem Extends.refers (he : later.Extends store) (h : store.Refers index declaration) :
    later.Refers index declaration where
  rendered := by
    rw [he.tuples_eq h.covers]
    exact h.rendered
  earlier := by
    intro field hfield nested hn
    obtain ⟨position, target, hposition, hlt, hget, hlabel⟩ := h.earlier field hfield nested hn
    refine ⟨position, target, he.position? hposition, hlt, he.get? hget, ?_⟩
    rw [he.labelOf_eq (h.covers field hfield), hlabel]

end Store

namespace Synthesis

/-- A declaration that is emitted refers to those before it. -/
theorem Emits.refers {policy : Collision} {context : Context} {shape : Shape} {s s₁ : Synthesis}
    {lines : String} (h : Emits policy context shape s lines s₁) :
    s₁.store.Refers s₁.store.length (s.declared policy context shape lines) where
  rendered := ⟨context.mode, h.text_eq⟩
  earlier := by
    intro field hfield nested hn
    obtain ⟨target, hfind⟩ := h.covers field hfield nested hn
    obtain ⟨position, hposition, hget⟩ := Store.find?_eq_some_iff.mp hfind
    exact ⟨position, target, hposition, Store.position?_lt hposition, hget,
      Store.labelOf_of_some hn hfind⟩

/-- Every declaration that a synthesis adds refers to those before it. -/
theorem tracks_refers (policy : Collision) :
    Tracks policy (Adds fun store index d => store.Refers index d) := by
  apply TracksIn.tracks
  apply tracksIn_adds
  · exact fun _ _ _ => trivial
  · exact fun he hrefers => he.refers hrefers
  · exact fun _ hemits => hemits.refers

/-- The text of every declaration that a synthesis adds is that of its fields' tuples, in the mode of the
context. -/
theorem tracks_text (policy : Collision) (mode : RenderMode) :
    TracksIn policy (fun context _ => context.mode = mode) (Adds fun store _ d =>
      store.Covers d.shape ∧ d.text = FieldTuple.text mode d.name (store.tuples d.shape)) := by
  refine tracksIn_adds (fun h _ _ => h) ?_ ?_
  · rintro later store index d he ⟨hcovers, htext⟩
    rw [he.tuples_eq hcovers]
    exact ⟨he.covers hcovers, htext⟩
  · rintro context shape s lines s₁ rfl hemits
    exact ⟨hemits.covers, hemits.text_eq⟩

end Synthesis

end SampleTypes

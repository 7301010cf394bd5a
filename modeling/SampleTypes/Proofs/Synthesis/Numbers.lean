import SampleTypes.Proofs.Naming.Search
import SampleTypes.Proofs.Synthesis.Resolution

/-!
# The numbers in names

A name that is taken gets a number by a search that nothing bounds but the names that are taken. The search
ends, and it ends early (`search_ends_early`): at a number that is not greater than one more than there are
names, whatever they look like.

While shapes are declared, names are taken by the declarations in the store and by those still being written.
As all of the latter get into the store, no number in a name that is given on the way is greater than the
number of names in the end (`Synthesis.Reached.renamed`).
-/

namespace SampleTypes

/-- The name is the wish with a number, from two on up to a bound. -/
def Naming.NumberedUpTo (bound : Nat) (wish name : String) : Prop :=
  ∃ number, 2 ≤ number ∧ number ≤ bound ∧ name = Naming.numbered wish number

/-- A bound on numbers may be raised. -/
theorem Naming.NumberedUpTo.mono {bound bound' : Nat} {wish name : String}
    (h : NumberedUpTo bound wish name) (hle : bound ≤ bound') : NumberedUpTo bound' wish name := by
  obtain ⟨number, htwo, hbound, hname⟩ := h
  exact ⟨number, htwo, Nat.le_trans hbound hle, hname⟩

namespace Synthesis

variable {context : Context} {shape fields : Shape} {s s' s₁ s₂ s₃ : Synthesis} {lines : String}

/-! ## Single claims -/

/-- The names that are taken, each of them once. -/
def used (s : Synthesis) : Finset String :=
  s.taken.toFinset

theorem mem_used {name : String} : name ∈ s.used ↔ name ∈ s.taken :=
  List.mem_toFinset

theorem name_claim (policy : Collision) (wish : String) (s : Synthesis) :
    (s.claim policy wish).1 = Naming.claim policy s.taken wish := rfl

/-- One name more is taken after a claim, the claimed one. -/
theorem used_claim (wish : String) (s : Synthesis) :
    (s.claim .disambiguate wish).2.used = insert (s.claim .disambiguate wish).1 s.used := by
  have htaken : (s.claim .disambiguate wish).2.taken =
      (s.claim .disambiguate wish).1 :: s.taken := by
    simp only [claim]
    split <;> rfl
  rw [used, htaken, List.toFinset_cons, used]

/-- How a claim goes for a wish while names are used: what is claimed, and which names are used then. -/
structure FoundEarly (used : Finset String) (wish name : String) (after : Finset String) : Prop where
  /-- Whoever searches by rounds claims this name, and does so in finitely many rounds. -/
  claims_iff : ∀ other otherAfter,
    Claims Nat used wish other otherAfter ↔ other = name ∧ otherAfter = after
  free : name ∉ used
  after_eq : after = insert name used
  /-- A wish that is free comes true. -/
  plain : wish ∉ used → name = wish
  /-- The number that the search for a free form of the wish ends at. -/
  number : wish ∈ used → ∃ number, 2 ≤ number ∧ number ≤ used.card + 1 ∧
    Search.Reaches wish ⟨used, 2⟩ ⟨used, number⟩ ∧ name = Naming.numbered wish number
  /-- The names stay as they are up to the last round, and the numbers small. -/
  rounds : wish ∈ used → ∀ later : Search Nat, Search.Reaches wish ⟨used, 2⟩ later →
    later.taken = used ∧ later.number ≤ used.card + 1
  /-- It can be counted in 32 bits. -/
  word : used.card < 2 ^ 31 - 2 →
    (∀ other otherAfter, Claims Int32 used wish other otherAfter ↔ other = name ∧ otherAfter = after) ∧
    (wish ∈ used → ∀ later : Search Int32, Search.Reaches wish ⟨used, 2⟩ later →
      (later.number + 1).toInt = later.number.toInt + 1)

/-- The number that a claim adds to a wish that is taken. -/
theorem exists_number_claim {wish : String} (h : wish ∈ s.taken) :
    ∃ number, 2 ≤ number ∧ number ≤ s.used.card + 1 ∧
      Search.Reaches wish ⟨s.used, 2⟩ ⟨s.used, number⟩ ∧
      (s.claim .disambiguate wish).1 = Naming.numbered wish number := by
  obtain ⟨number, hle, hreaches, -, hname⟩ := exists_last h
  exact ⟨number, hle, hreaches.number_le (mem_used.mpr h), hreaches, hname⟩

/-- A claim finds a name early, and adds just that name to those in use. -/
theorem foundEarly_claim (wish : String) (s : Synthesis) :
    FoundEarly s.used wish (s.claim .disambiguate wish).1 (s.claim .disambiguate wish).2.used := by
  -- All parts follow from what the search on natural numbers ends with.
  have hclaims : ∀ other otherAfter, Claims Nat s.used wish other otherAfter ↔
      other = (s.claim .disambiguate wish).1 ∧
        otherAfter = (s.claim .disambiguate wish).2.used := by
    intro other otherAfter
    rw [used_claim, used, SampleTypes.claims_iff]
    constructor
    · rintro ⟨rfl, rfl⟩
      exact ⟨rfl, rfl⟩
    · rintro ⟨rfl, rfl⟩
      exact ⟨rfl, rfl⟩
  constructor
  · exact hclaims
  · rw [mem_used, name_claim]
    exact Naming.fresh_not_mem s.taken wish
  · exact used_claim wish s
  · intro hnot
    exact Naming.claim_of_not_mem (fun hmem => hnot (mem_used.mpr hmem)) .disambiguate
  · intro hmem
    exact exists_number_claim (mem_used.mp hmem)
  · intro hmem later hreaches
    exact ⟨hreaches.taken_eq, hreaches.number_le hmem⟩
  · intro hcard
    constructor
    · intro other otherAfter
      rw [claims_word_iff hcard, hclaims]
    · intro hmem later hreaches
      exact Search.toInt_number_add_one hcard hmem hreaches

/-! ## Claims on the way -/

/-- A stretch of a synthesis in which no name gets a greater number than there are names taken in the end. -/
structure Numbers (s s' : Synthesis) : Prop where
  used_subset : s.used ⊆ s'.used
  renamed : ∀ wish name, Event.renamed wish name ∈ s'.events →
    Event.renamed wish name ∈ s.events ∨ Naming.NumberedUpTo s'.used.card wish name

/-- Two stretches in a row keep to the bound of the second one, as names are only added. -/
theorem Numbers.trans (h : Numbers s₁ s₂) (h' : Numbers s₂ s₃) : Numbers s₁ s₃ where
  used_subset := h.used_subset.trans h'.used_subset
  renamed := by
    intro wish name hmem
    rcases h'.renamed wish name hmem with hold | hnew
    · refine (h.renamed wish name hold).imp_right fun hnumber => ?_
      exact hnumber.mono (Finset.card_le_card h'.used_subset)
    · exact .inr hnew

/-- Where no name is claimed, none gets a number. -/
theorem Numbers.of_note {event : Event} (hused : s'.used = s.used)
    (hevents : s'.events = s.events ++ [event]) (h : ∀ wish name, event ≠ .renamed wish name) :
    Numbers s s' where
  used_subset := hused ▸ Finset.Subset.refl _
  renamed := by
    intro wish name hmem
    rw [hevents, List.mem_append, List.mem_singleton] at hmem
    exact .inl (hmem.resolve_right fun heq => h wish name heq.symm)

theorem numbers_reused (s : Synthesis) (name : String) : Numbers s (s.note (.reused name)) :=
  .of_note rfl rfl nofun

theorem numbers_emit (s : Synthesis) (declaration : Declaration) :
    Numbers s (s.emit declaration) :=
  .of_note rfl rfl nofun

/-- A claim numbers a name with one more than there were in use at most. -/
theorem numbers_opened (context : Context) (s : Synthesis) :
    Numbers s (s.opened .disambiguate context) := by
  have hused := used_claim (Naming.candidate context.name) s
  have hevents := events_opened .disambiguate context s
  constructor
  · rw [opened, hused]
    exact Finset.subset_insert _ _
  · intro wish name hmem
    simp only [hevents] at hmem
    split at hmem
    · exact .inl hmem
    · next hrenamed =>
        rcases List.mem_append.mp hmem with hmem | hmem
        · exact .inl hmem
        · -- The wish gave way, so it was taken, and the search has found the name.
          cases List.mem_singleton.mp hmem
          have htaken : Naming.candidate context.name ∈ s.taken := by
            by_contra hfree
            rw [Naming.claim_of_not_mem hfree, beq_self_eq_true] at hrenamed
            exact hrenamed rfl
          have hfree : (s.claim .disambiguate (Naming.candidate context.name)).1 ∉ s.used :=
            (foundEarly_claim _ s).free
          obtain ⟨number, htwo, hle, -, hname⟩ := exists_number_claim htaken
          refine .inr ⟨number, htwo, ?_, hname⟩
          rw [opened, hused, Finset.card_insert_of_notMem hfree]
          exact hle

theorem Writes.numbers (h : Writes .disambiguate context fields s lines s') : Numbers s s' := by
  induction h with
  | nil => exact ⟨Finset.Subset.refl _, fun _ _ hmem => .inl hmem⟩
  | plain _ _ ih => exact ih
  | known _ _ _ ih => exact (numbers_reused _ _).trans ih
  | fresh _ _ _ _ ihin ih =>
      exact ((numbers_opened _ _).trans ihin).trans ((numbers_emit _ _).trans ih)

/-- A whole synthesis keeps to the bound. -/
theorem declare_numbers (shape : Shape) (context : Context) (s : Synthesis) :
    Numbers s (s.declare .disambiguate shape context).2 := by
  cases hf : s.store.find? shape with
  | some known =>
      rw [declare_of_known hf]
      exact numbers_reused s known.name
  | none =>
      rw [declare_of_unknown hf]
      have hwrites := writes_writeFields .disambiguate context shape (s.opened .disambiguate context)
      exact ((numbers_opened context s).trans hwrites.numbers).trans (numbers_emit _ _)

/-- Between declarations, only the names in the store are taken. -/
theorem Reached.used_eq {seed : Store} (h : Reached seed s) : s.used = s.store.names.toFinset := by
  induction h with
  | start => rfl
  | @declare s _ shape hp context ih =>
      obtain ⟨added, hgrows⟩ := declare_track tracks_grows hp context s
      ext name
      rw [mem_used, hgrows.taken_iff, ← mem_used, ih, hgrows.names_eq, List.toFinset_append,
        Finset.mem_union, List.mem_toFinset (l := added)]
  | restart _ _ => rfl

/-- No number in a name is greater than the number of names in the store. -/
theorem Reached.renamed {seed : Store} (h : Reached seed s) {wish name : String}
    (hmem : Event.renamed wish name ∈ s.events) :
    Naming.NumberedUpTo s.store.names.toFinset.card wish name := by
  induction h with
  | start => exact absurd hmem List.not_mem_nil
  | @declare s h shape hp context ih =>
      have hnumbers := declare_numbers shape context s
      rw [← (h.declare hp context).used_eq]
      rcases hnumbers.renamed wish name hmem with hold | hnew
      · have hbefore := ih hold
        rw [← h.used_eq] at hbefore
        exact hbefore.mono (Finset.card_le_card hnumbers.used_subset)
      · exact hnew
  | restart _ _ => exact absurd hmem List.not_mem_nil

end Synthesis

/-! ## All together -/

/-- **The search for a name ends, and early.** No search goes on for ever, whatever names are taken and
wherever it begins. What a claim yields, and which names are used then, is what the rounds of the search come
to: a name that was not used, and nothing else is used that was not used before. If the wish was used, the
number that it gets is at least two, and at most one more than there are names; no round before has a greater
one, so with less than 2^31 - 2 names a counter of 32 bits counts as far and claims the same. Whatever a store
held in the beginning, the names that are used between declarations are those in the store, and no number in a
name that is given on the way is greater than the number of names in the end. -/
theorem search_ends_early :
    (∀ name : String, WellFounded fun later earlier : Search Nat => earlier.Round name later) ∧
    (∀ (s : Synthesis) (wish : String),
      Synthesis.FoundEarly s.used wish (s.claim .disambiguate wish).1
          (s.claim .disambiguate wish).2.used ∧
        (s.claim .disambiguate wish).2.used.card = s.used.card + 1) ∧
    ∀ (seed : Store) (s : Synthesis), Synthesis.Reached seed s →
      s.used = s.store.names.toFinset ∧
      ∀ wish name : String, Event.renamed wish name ∈ s.events →
        Naming.NumberedUpTo s.store.names.toFinset.card wish name := by
  refine ⟨Search.wellFounded_round, ?_, ?_⟩
  · intro s wish
    have hfound := Synthesis.foundEarly_claim wish s
    refine ⟨hfound, ?_⟩
    rw [hfound.after_eq, Finset.card_insert_of_notMem hfound.free]
  · intro seed s hreached
    refine ⟨hreached.used_eq, ?_⟩
    intro wish name hmem
    exact hreached.renamed hmem

/-- A store in which the name that a field `a` would lead to is in use, and so are its first numbers. -/
def seedWithNumbers : Store :=
  ⟨[⟨"A", [("x", ⟨.string, "string", false, false, none⟩)], ""⟩,
    ⟨"A2", [("x", ⟨.number, "number", false, false, none⟩)], ""⟩,
    ⟨"A3", [("x", ⟨.boolean, "boolean", false, false, none⟩)], ""⟩]⟩

/-- Two shapes, one inside the other, that wish for the same name: the keys to the inner one are `a` and the
empty key. -/
def wishesTwice : Shape :=
  [("a", ⟨.object, "object", false, false, some
    [("", ⟨.object, "object", false, false, some
      [("y", ⟨.number, "number", false, false, none⟩)]⟩)]⟩)]

def declaredTwice : Synthesis :=
  ((Synthesis.start seedWithNumbers).declare .disambiguate wishesTwice
    (.root "Response" ⟨false, false⟩)).2

theorem search_ends_early_seedWithNumbers :
    seedWithNumbers.names.toFinset.card = 3 ∧
    (∃ number, 2 ≤ number ∧ number ≤ 4 ∧ "A4" = Naming.numbered "A" number) ∧
    (∀ name after, Claims Int32 seedWithNumbers.names.toFinset "A" name after ↔
      name = "A4" ∧ after = insert "A4" seedWithNumbers.names.toFinset) ∧
    wishesTwice.Proper ∧ Event.renamed "A" "A5" ∈ declaredTwice.events ∧
    declaredTwice.store.names = ["A", "A2", "A3", "A5", "A4", "Response"] ∧
    Naming.NumberedUpTo 6 "A" "A5" := by
  obtain ⟨-, hclaims, hreached⟩ := search_ends_early
  have hfound := (hclaims (.start seedWithNumbers) "A").1
  have hname : ((Synthesis.start seedWithNumbers).claim .disambiguate "A").1 = "A4" := by
    decide +kernel
  have hcard : (Synthesis.start seedWithNumbers).used.card = 3 := by decide +kernel
  have hmem : "A" ∈ seedWithNumbers.names.toFinset := by decide +kernel
  have hproper : wishesTwice.Proper := by
    refine ⟨by decide, List.forall_mem_singleton.mpr (.node rfl (by decide) ?_)⟩
    refine List.forall_mem_singleton.mpr (.node rfl (by decide) ?_)
    exact List.forall_mem_singleton.mpr (.leaf rfl)
  have hevent : Event.renamed "A" "A5" ∈ declaredTwice.events := by decide +kernel
  have hnames : declaredTwice.store.names = ["A", "A2", "A3", "A5", "A4", "Response"] := by
    decide +kernel
  rw [hfound.after_eq, hname] at hfound
  refine ⟨hcard, ?_, ?_, hproper, hevent, hnames, ?_⟩
  · obtain ⟨number, htwo, hle, -, hnumber⟩ := hfound.number hmem
    rw [hcard] at hle
    exact ⟨number, htwo, hle, hnumber⟩
  · exact (hfound.word (by rw [hcard]; decide)).1
  · have hnumbers := (hreached seedWithNumbers declaredTwice (.declare .start hproper _)).2
    have hbound := hnumbers "A" "A5" hevent
    rwa [hnames] at hbound

end SampleTypes

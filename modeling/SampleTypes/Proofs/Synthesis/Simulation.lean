import SampleTypes.Proofs.Synthesis.Steps

/-!
# Two syntheses side by side

The same shape is declared twice, in states and contexts that need not be equal. If both states know the same
shapes under the same names, both syntheses take the same way through the shape, so they can be followed
step by step. What every pair of steps keeps (`Simulates`), the whole keeps (`Writes.simulate`,
`declare_simulate`).
-/

namespace SampleTypes.Synthesis

variable {policy : Collision} {context context' : Context} {shape fields : Shape}
  {s s' r r' : Synthesis} {lines lines' : String}

/-- Relations between contexts, between lines and between states that every pair of steps keeps. Contexts that
are related wish for the same name, and in states that are related the same names are taken and found. -/
structure Simulates (policy : Collision) (C : Context → Context → Prop)
    (L : String → String → Prop) (R : Synthesis → Synthesis → Prop) : Prop where
  name_eq : ∀ {context context'}, C context context' → context.name = context'.name
  child : ∀ {context context'}, C context context' → ∀ key,
    C (context.child key) (context'.child key)
  nil : L "" ""
  line : ∀ {context context' lines lines'}, C context context' → L lines lines' →
    ∀ key label type, L (Rendering.fieldLine key label type context.mode ++ lines)
      (Rendering.fieldLine key label type context'.mode ++ lines')
  taken_eq : ∀ {s r}, R s r → s.taken = r.taken
  found_eq : ∀ {s r}, R s r → ∀ shape,
    (s.store.find? shape).map (·.name) = (r.store.find? shape).map (·.name)
  note : ∀ {s r}, R s r → ∀ event, R (s.note event) (r.note event)
  opened : ∀ {context context' s r}, C context context' → R s r →
    R (s.opened policy context) (r.opened policy context')
  emit : ∀ {context context' s r s' r' lines lines'}, C context context' → R s r → R s' r' →
    L lines lines' → ∀ shape, R (s'.emit (s.declared policy context shape lines))
      (r'.emit (r.declared policy context' shape lines'))

namespace Simulates

variable {C : Context → Context → Prop} {L : String → String → Prop}
  {R : Synthesis → Synthesis → Prop} (hR : Simulates policy C L R)

include hR

/-- A shape that is known in one state is known in the other one, under the same name. -/
theorem known (hs : R s r) {known : Declaration} (h : s.store.find? shape = some known) :
    ∃ other, r.store.find? shape = some other ∧ other.name = known.name := by
  have heq := hR.found_eq hs shape
  rw [h, Option.map_some] at heq
  exact Option.map_eq_some_iff.mp heq.symm

/-- What one run does not know, the other one does not know either. -/
theorem unknown (hs : R s r) (h : s.store.find? shape = none) : r.store.find? shape = none := by
  have heq := hR.found_eq hs shape
  rw [h, Option.map_none] at heq
  exact Option.map_eq_none_iff.mp heq.symm

/-- A shape that both declare gets the same name in both. -/
theorem declared_name (hC : C context context') (hs : R s r) (shape : Shape)
    (lines lines' : String) : (s.declared policy context shape lines).name =
      (r.declared policy context' shape lines').name := by
  rw [declared, declared, hR.taken_eq hs, hR.name_eq hC]

end Simulates

section

variable {C : Context → Context → Prop} {L : String → String → Prop}
  {R : Synthesis → Synthesis → Prop}

/-- What every pair of steps keeps, writing the same fields keeps. -/
theorem Writes.simulate (hR : Simulates policy C L R)
    (h : Writes policy context fields s lines s') (h' : Writes policy context' fields r lines' r')
    (hC : C context context') (hs : R s r) : L lines lines' ∧ R s' r' := by
  -- The second run makes the same steps: what a field has nested in it is no matter of states, and what is
  -- known in one state is known in the other one.
  induction h generalizing context' r lines' r' with
  | nil =>
      cases h'
      exact ⟨hR.nil, hs⟩
  | plain hn _ ih =>
      cases h' with
      | plain _ h' =>
          obtain ⟨hlines, hend⟩ := ih h' hC hs
          exact ⟨hR.line hC hlines _ _ _, hend⟩
      | known hn' => cases hn.symm.trans hn'
      | fresh hn' => cases hn.symm.trans hn'
  | known hn hf _ ih =>
      obtain ⟨other, hother, hname⟩ := hR.known hs hf
      cases h' with
      | plain hn' => cases hn.symm.trans hn'
      | known hn' hf' h' =>
          cases hn.symm.trans hn'
          cases hother.symm.trans hf'
          rw [hname] at h' ⊢
          obtain ⟨hlines, hend⟩ := ih h' hC (hR.note hs _)
          exact ⟨hR.line hC hlines _ _ _, hend⟩
      | fresh hn' hf' =>
          cases hn.symm.trans hn'
          cases hother.symm.trans hf'
  | fresh hn hf _ _ ihin ih =>
      have hunknown := hR.unknown hs hf
      cases h' with
      | plain hn' => cases hn.symm.trans hn'
      | known hn' hf' =>
          cases hn.symm.trans hn'
          cases hunknown.symm.trans hf'
      | fresh hn' hf' hin' h' =>
          cases hn.symm.trans hn'
          have hchild := hR.child hC
          obtain ⟨hinner, hinside⟩ := ihin hin' (hchild _) (hR.opened (hchild _) hs)
          obtain ⟨hlines, hend⟩ := ih h' hC (hR.emit (hchild _) hs hinside hinner _)
          rw [hR.declared_name (hchild _) hs]
          exact ⟨hR.line hC hlines _ _ _, hend⟩

/-- What every pair of steps keeps, declaring the same shape keeps, and both runs return the same name. -/
theorem declare_simulate (hR : Simulates policy C L R) (hC : C context context') (hs : R s r)
    (shape : Shape) :
    (s.declare policy shape context).1.name = (r.declare policy shape context').1.name ∧
      R (s.declare policy shape context).2 (r.declare policy shape context').2 := by
  cases hf : s.store.find? shape with
  | some known =>
      obtain ⟨other, hother, hname⟩ := hR.known hs hf
      rw [declare_of_known hf, declare_of_known hother, hname]
      exact ⟨rfl, hR.note hs _⟩
  | none =>
      rw [declare_of_unknown hf, declare_of_unknown (hR.unknown hs hf)]
      have hwrites := writes_writeFields policy context shape (s.opened policy context)
      have hwrites' := writes_writeFields policy context' shape (r.opened policy context')
      obtain ⟨hlines, hend⟩ := hwrites.simulate hR hwrites' hC (hR.opened hC hs)
      exact ⟨hR.declared_name hC hs shape _ _, hR.emit hC hs hend hlines shape⟩

end

end SampleTypes.Synthesis

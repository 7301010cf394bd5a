import Mathlib.Data.List.Forall2

/-!
# Outcomes

Steps in a row succeed if each of them does, and a step that is made for every element of a list succeeds if it
does for each of them.
-/

namespace SampleTypes

variable {α β ε : Type}

/-- Two steps succeed together if the second one succeeds with what the first one returned. -/
theorem except_bind_eq_ok {outcome : Except ε α} {next : α → Except ε β} {b : β} :
    (outcome >>= next) = .ok b ↔ ∃ a, outcome = .ok a ∧ next a = .ok b := by
  cases outcome with
  | error fault => simp [bind, Except.bind]
  | ok a => simp [bind, Except.bind]

theorem mapError_eq_ok {ε' : Type} {outcome : Except ε α} {f : ε → ε'} {a : α} :
    outcome.mapError f = .ok a ↔ outcome = .ok a := by
  cases outcome <;> simp [Except.mapError]

/-- What does not fail succeeds. -/
theorem exists_eq_ok {outcome : Except ε α} (h : ∀ fault, outcome ≠ .error fault) :
    ∃ a, outcome = .ok a := by
  cases outcome with
  | error fault => exact absurd rfl (h fault)
  | ok a => exact ⟨a, rfl⟩

/-- Two steps that pass on a state succeed together in the same way. -/
theorem estate_bind_eq_ok {σ : Type} {step : EStateM ε σ α} {next : α → EStateM ε σ β} {before after : σ}
    {b : β} :
    (step >>= next) before = .ok b after ↔
      ∃ a middle, step before = .ok a middle ∧ next a middle = .ok b after := by
  show EStateM.bind step next before = _ ↔ _
  rw [EStateM.bind]
  cases step before with
  | ok a middle => simp
  | error fault middle => simp

/-- A list of steps succeeds if each of them does. -/
theorem mapM_eq_ok {step : α → Except ε β} {xs : List α} {ys : List β} :
    xs.mapM step = .ok ys ↔ List.Forall₂ (fun x y => step x = .ok y) xs ys := by
  induction xs generalizing ys with
  | nil => simp [pure, Except.pure, eq_comm]
  | cons x xs ih =>
      rw [List.mapM_cons, except_bind_eq_ok, List.forall₂_cons_left_iff]
      refine exists_congr fun y => ?_
      simp only [except_bind_eq_ok, ih, pure, Except.pure, Except.ok.injEq]
      constructor
      · rintro ⟨hfirst, rest, hrest, rfl⟩
        exact ⟨rest, hfirst, hrest, rfl⟩
      · rintro ⟨rest, hfirst, hrest, rfl⟩
        exact ⟨hfirst, rest, hrest, rfl⟩

/-- Choices for each element make up a list. -/
theorem exists_forall₂ {R : α → β → Prop} {xs : List α} (h : ∀ x ∈ xs, ∃ y, R x y) :
    ∃ ys, List.Forall₂ R xs ys := by
  induction xs with
  | nil => exact ⟨[], .nil⟩
  | cons x xs ih =>
      rw [List.forall_mem_cons] at h
      obtain ⟨⟨y, hy⟩, hrest⟩ := h
      obtain ⟨ys, hys⟩ := ih hrest
      exact ⟨y :: ys, .cons hy hys⟩

/-- What is related in pairs has a partner on the other side. -/
theorem exists_of_forall₂ {R : α → β → Prop} {xs : List α} {ys : List β} (h : List.Forall₂ R xs ys) :
    (∀ x ∈ xs, ∃ y ∈ ys, R x y) ∧ ∀ y ∈ ys, ∃ x ∈ xs, R x y := by
  induction h with
  | nil => simp
  | cons hxy _ ih =>
      obtain ⟨hforth, hback⟩ := ih
      simp only [List.forall_mem_cons, List.exists_mem_cons_iff]
      exact ⟨⟨.inl hxy, fun x hx => .inr (hforth x hx)⟩, .inl hxy, fun y hy => .inr (hback y hy)⟩

end SampleTypes

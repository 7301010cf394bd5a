import Mathlib.Data.List.Nodup
import SampleTypes.Proofs.Build.Contents
import SampleTypes.Proofs.Json.Rearranged
import SampleTypes.Proofs.Outcomes

/-!
# What is declared does not depend on the order

Values that are built in another order, or whose documents have their members in another order, get other
names and other indices. What they get declarations for stays the same: the declarations of the two
stores can be matched one to one, each with one of the same shape (`contents_independent_of_order`).

The moment at which a shape is first met plays no part in this, because a store is told by what is
demanded of it (`Store.Exact`). Shapes demanded in one order have their likes among those demanded in
the other (`Demanded.exists_like`), and each store has one declaration for every class.
-/

namespace SampleTypes

/-! ## Matching stores -/

namespace Store

variable {store other : Store}

/-- Each declaration goes with one of the other store whose shape is the same, and none is left over. -/
def Matches (store other : Store) : Prop :=
  ∃ partners : List Declaration, partners.Perm other.entries ∧
    List.Forall₂ (fun d partner => d.shape.same partner.shape = true) store.entries partners

theorem Matches.length_eq (h : store.Matches other) : store.length = other.length := by
  obtain ⟨partners, hperm, hall⟩ := h
  exact hall.length_eq.trans hperm.length_eq

/-- Proper shapes that are pairwise different make pairwise different declarations. -/
theorem Unique.nodup (h : store.Unique) (hp : ∀ d ∈ store.entries, d.shape.Proper) :
    store.entries.Nodup := by
  refine List.Pairwise.imp_of_mem ?_ h
  rintro d _ hd - hdiffer rfl
  rw [Shape.same_refl (hp d hd)] at hdiffer
  cases hdiffer

/-- Stores with one declaration for every shape that the other one knows match. -/
theorem Unique.matches (h : store.Unique) (h' : other.Unique)
    (hp : ∀ d ∈ store.entries, d.shape.Proper) (hp' : ∀ d ∈ other.entries, d.shape.Proper)
    (hfind : ∀ d ∈ store.entries, ∃ partner, other.find? d.shape = some partner)
    (hfind' : ∀ d ∈ other.entries, ∃ partner, store.find? d.shape = some partner) :
    store.Matches other := by
  -- Every declaration is paired with the one that is found for its shape.
  choose! partner hpartner using hfind
  have hsame : ∀ d ∈ store.entries, d.shape.same (partner d).shape = true := fun d hd =>
    Shape.same_symm (hp' _ (mem_of_find? (hpartner d hd))) (hp d hd) (same_of_find? (hpartner d hd))
  refine ⟨store.entries.map partner, ?_, ?_⟩
  · refine (List.perm_ext_iff_of_nodup ?_ (h'.nodup hp')).mpr fun e => ?_
    · -- Declarations with one partner have shapes that are the same.
      refine List.Nodup.map_on (fun d hd d' hd' heq => ?_) (h.nodup hp)
      refine h.eq_of_same hp hd hd' (Shape.same_trans (hsame d hd) ?_)
      rw [heq]
      exact same_of_find? (hpartner d' hd')
    · constructor
      · intro he
        obtain ⟨d, hd, rfl⟩ := List.mem_map.mp he
        exact mem_of_find? (hpartner d hd)
      · intro he
        obtain ⟨d, hd⟩ := hfind' e he
        have hmem := mem_of_find? hd
        have heq : partner d = e := by
          apply h'.eq_of_same hp' (mem_of_find? (hpartner d hmem)) he
          exact Shape.same_trans (same_of_find? (hpartner d hmem)) (same_of_find? hd)
        exact heq ▸ List.mem_map_of_mem hmem
  · rw [List.forall₂_map_right_iff, List.forall₂_same]
    exact hsame

/-- Stores that are exact for the same classes of shapes match. -/
theorem Exact.matches {demanded demanded' : Shape → Prop} (h : store.Exact demanded)
    (h' : other.Exact demanded') (hp : ∀ shape, demanded shape → shape.Proper)
    (hp' : ∀ shape, demanded' shape → shape.Proper)
    (hlike : ∀ shape, demanded shape → ∃ like, demanded' like ∧ shape.same like = true)
    (hlike' : ∀ shape, demanded' shape → ∃ like, demanded like ∧ shape.same like = true) :
    store.Matches other := by
  refine h.unique.matches h'.unique (fun d hd => hp _ (h.sound d hd))
    (fun d hd => hp' _ (h'.sound d hd)) ?_ ?_
  · intro d hd
    obtain ⟨like, hdemanded, hsame⟩ := hlike d.shape (h.sound d hd)
    rw [find?_congr (hp _ (h.sound d hd)) (hp' like hdemanded) hsame]
    exact h'.complete like hdemanded
  · intro d hd
    obtain ⟨like, hdemanded, hsame⟩ := hlike' d.shape (h'.sound d hd)
    rw [find?_congr (hp' _ (h'.sound d hd)) (hp like hdemanded) hsame]
    exact h.complete like hdemanded

end Store

/-! ## Builds in another order -/

namespace BuildStep

variable {step other : BuildStep} {shape : Shape}

/-- The steps have shapes that are the same. -/
def Alike (step other : BuildStep) : Prop :=
  ∃ shape like, step.Infers shape ∧ other.Infers like ∧ shape.same like = true

theorem Alike.symm (h : step.Alike other) : other.Alike step := by
  obtain ⟨shape, like, hshape, hlike, hsame⟩ := h
  exact ⟨like, shape, hlike, hshape,
    Shape.same_symm hshape.inferred.proper hlike.inferred.proper hsame⟩

/-- The step is left as it is, or its document is rearranged. -/
inductive Rearranges : BuildStep → BuildStep → Prop
  | same (step : BuildStep) : Rearranges step step
  | document {document other : Json} {options : Options} (hp : document.Proper)
      (h : document.Rearranges other) : Rearranges ⟨.document document, options⟩ ⟨.document other, options⟩

/-- A step on a rearranged source infers the same shape. -/
theorem Rearranges.alike (h : step.Rearranges other) (hshape : step.Infers shape) :
    step.Alike other := by
  cases h with
  | same => exact ⟨shape, shape, hshape, hshape, Shape.same_refl hshape.inferred.proper⟩
  | document hp h =>
      obtain ⟨like, hlike, hsame⟩ := Json.exists_inferShape hp h hshape
      exact ⟨shape, like, hshape, hlike, hsame⟩

end BuildStep

variable {steps others middle : List BuildStep} {shape : Shape}

/-- If every step has one alike, every shape that is demanded has its like. -/
theorem Demanded.exists_like (h : ∀ step ∈ steps, ∃ other ∈ others, step.Alike other)
    (hdemanded : Demanded steps shape) :
    ∃ like, Demanded others like ∧ shape.same like = true := by
  obtain ⟨step, hstep, root, hroot, hwithin⟩ := hdemanded
  obtain ⟨other, hother, root', like, hroot', hlike, hsame⟩ := h step hstep
  have heq : root' = root := Except.ok.inj (hroot'.symm.trans hroot)
  subst heq
  obtain ⟨inner, hinner, hinnersame⟩ := hwithin.exists_like hlike.inferred.regular hsame
  exact ⟨inner, ⟨other, hother, like, hlike, hinner⟩, hinnersame⟩

/-- Builds whose shapes are the same in pairs leave stores that match. -/
theorem matches_of_alike (hforth : ∀ step ∈ steps, ∃ other ∈ others, step.Alike other)
    (hback : ∀ other ∈ others, ∃ step ∈ steps, step.Alike other) :
    ∃ roots final roots' final', buildAll steps .empty = .ok (roots, final) ∧
      buildAll others .empty = .ok (roots', final') ∧ final.Matches final' := by
  have hsteps : ∀ step ∈ steps, ∃ shape, step.Infers shape := by
    intro step hstep
    obtain ⟨other, -, shape, -, hshape, -⟩ := hforth step hstep
    exact ⟨shape, hshape⟩
  have hothers : ∀ other ∈ others, ∃ shape, other.Infers shape := by
    intro other hother
    obtain ⟨step, -, -, like, -, hlike, -⟩ := hback other hother
    exact ⟨like, hlike⟩
  obtain ⟨roots, final, hbuild⟩ := exists_buildAll hsteps .empty
  obtain ⟨roots', final', hbuild'⟩ := exists_buildAll hothers .empty
  refine ⟨roots, final, roots', final', hbuild, hbuild', ?_⟩
  apply (Store.exact_of_buildAll hbuild).matches (Store.exact_of_buildAll hbuild')
  · exact fun shape hshape => hshape.proper_regular.1
  · exact fun shape hshape => hshape.proper_regular.1
  · exact fun shape hshape => hshape.exists_like hforth
  · refine fun shape hshape => hshape.exists_like fun other hother => ?_
    obtain ⟨step, hstep, halike⟩ := hback other hother
    exact ⟨step, hstep, halike.symm⟩

/-- **What is declared does not depend on the order.** Values that all have a shape are built into an
empty store. If they are built in another order, and their documents have the members of their objects
in another order and other elements behind the first ones of arrays, then both sequences of builds
succeed, and the declarations that they leave match one to one. -/
theorem contents_independent_of_order (h : ∀ step ∈ steps, ∃ shape, step.Infers shape)
    (hperm : steps.Perm middle) (hall : List.Forall₂ BuildStep.Rearranges middle others) :
    ∃ roots final roots' final', buildAll steps .empty = .ok (roots, final) ∧
      buildAll others .empty = .ok (roots', final') ∧ final.length = final'.length ∧
      final.Matches final' := by
  obtain ⟨hforth, hback⟩ := exists_of_forall₂ hall
  have halike : ∀ step ∈ steps, ∀ other, step.Rearranges other → step.Alike other := by
    intro step hstep other hrearranges
    obtain ⟨shape, hshape⟩ := h step hstep
    exact hrearranges.alike hshape
  obtain ⟨roots, final, roots', final', hbuild, hbuild', hmatches⟩ : ∃ roots final roots' final',
      buildAll steps .empty = .ok (roots, final) ∧
        buildAll others .empty = .ok (roots', final') ∧ final.Matches final' := by
    apply matches_of_alike
    · intro step hstep
      obtain ⟨other, hother, hrearranges⟩ := hforth step (hperm.mem_iff.mp hstep)
      exact ⟨other, hother, halike step hstep other hrearranges⟩
    · intro other hother
      obtain ⟨step, hstep, hrearranges⟩ := hback other hother
      have hmem := hperm.mem_iff.mpr hstep
      exact ⟨step, hmem, halike step hmem other hrearranges⟩
  exact ⟨roots, final, roots', final', hbuild, hbuild', hmatches.length_eq, hmatches⟩

/-- A document, and one that is built after it. -/
def nestThenWren : List BuildStep :=
  [⟨.document (.object [("bird", .object [("species", .string "wren"), ("ring", .null)]),
      ("eggs", .array [.number (.natural 1), .null])]), {}⟩,
    ⟨.document (.object [("species", .string "wren"), ("ring", .null)]), {}⟩]

/-- The same documents the other way round, with all members the other way round too. Of the eggs only
the first is left. -/
def wrenThenNest : List BuildStep :=
  [⟨.document (.object [("ring", .null), ("species", .string "wren")]), {}⟩,
    ⟨.document (.object [("eggs", .array [.number (.natural 1)]),
      ("bird", .object [("ring", .null), ("species", .string "wren")])]), {}⟩]

theorem contents_independent_of_order_nest :
    (∀ step ∈ nestThenWren, ∃ shape, step.Infers shape) ∧
      nestThenWren.Perm nestThenWren.reverse ∧
      List.Forall₂ BuildStep.Rearranges nestThenWren.reverse wrenThenNest ∧
      ∃ roots final roots' final', buildAll nestThenWren .empty = .ok (roots, final) ∧
        buildAll wrenThenNest .empty = .ok (roots', final') ∧ final.length = final'.length ∧
        final.Matches final' := by
  have hinfer : ∀ step ∈ nestThenWren, ∃ shape, step.Infers shape := by
    simp only [nestThenWren, List.forall_mem_cons, List.not_mem_nil, IsEmpty.forall_iff,
      implies_true, and_true]
    exact ⟨⟨_, rfl⟩, ⟨_, rfl⟩⟩
  have hperm : nestThenWren.Perm nestThenWren.reverse := (List.reverse_perm _).symm
  have hwren : Json.Proper (.object [("species", .string "wren"), ("ring", .null)]) := by
    refine .object (by decide) ?_
    simp only [List.forall_mem_cons, List.not_mem_nil, IsEmpty.forall_iff, implies_true, and_true]
    exact ⟨.string _, .null⟩
  have hring : Json.Rearranges (.object [("species", .string "wren"), ("ring", .null)])
      (.object [("ring", .null), ("species", .string "wren")]) :=
    Json.rearranges_of_perm (by decide) (.swap _ _ _)
  have hnest : BuildStep.Rearranges nestThenWren[0] wrenThenNest[1] := by
    refine .document (.object (by decide) ?_) (.object (by decide) ?_)
    · simp only [List.forall_mem_cons, List.not_mem_nil, IsEmpty.forall_iff, implies_true, and_true]
      refine ⟨hwren, .array ?_⟩
      simp only [List.forall_mem_cons, List.not_mem_nil, IsEmpty.forall_iff, implies_true, and_true]
      exact ⟨.number _, .null⟩
    · simp only [List.forall_mem_cons, List.not_mem_nil, IsEmpty.forall_iff, implies_true, and_true,
        String.reduceEq, true_and, forall_const]
      exact ⟨hring, .array (.same _)⟩
  have hall : List.Forall₂ BuildStep.Rearranges nestThenWren.reverse wrenThenNest :=
    .cons (.document hwren hring) (.cons hnest .nil)
  exact ⟨hinfer, hperm, hall, contents_independent_of_order hinfer hperm hall⟩

end SampleTypes

import SampleTypes.Proofs.Shape.Nesting
import SampleTypes.Store

/-!
# Looking declarations up

A store only grows at its end (`Store.Extends`), and every look-up finds the first match: what a
store finds, every later store finds at the same place.
-/

namespace SampleTypes.Store

variable {store earlier later : Store} {shape other : Shape} {declaration : Declaration}
  {index : Nat} {name : String}

/-! ## Extension -/

/-- The later store begins with all that is in the earlier one. -/
def Extends (later earlier : Store) : Prop :=
  earlier.entries <+: later.entries

theorem Extends.refl (store : Store) : store.Extends store :=
  List.prefix_rfl

theorem Extends.trans {last : Store} (h : later.Extends earlier) (h' : last.Extends later) :
    last.Extends earlier :=
  List.IsPrefix.trans h h'

theorem extends_push (store : Store) (declaration : Declaration) :
    (store.push declaration).Extends store :=
  List.prefix_append _ _

/-- An index that is in use keeps its declaration. -/
theorem Extends.get? (h : later.Extends earlier) (hget : earlier.get? index = some declaration) :
    later.get? index = some declaration := by
  obtain ⟨hlt, rfl⟩ := List.getElem?_eq_some_iff.mp hget
  exact List.prefix_iff_getElem?.mp h index hlt

/-- What the later store has at an index of the earlier one was there before. -/
theorem Extends.get?_of_lt (h : later.Extends earlier) (hlt : index < earlier.length)
    (hget : later.get? index = some declaration) : earlier.get? index = some declaration := by
  have hbefore : earlier.get? index = some earlier.entries[index] := List.getElem?_eq_getElem hlt
  rw [hbefore, ← h.get? hbefore, hget]

theorem Extends.position? (h : later.Extends earlier)
    (hposition : earlier.position? shape = some index) : later.position? shape = some index :=
  List.IsPrefix.findIdx?_eq_some h hposition

theorem Extends.find? (h : later.Extends earlier)
    (hfind : earlier.find? shape = some declaration) : later.find? shape = some declaration :=
  List.IsPrefix.find?_eq_some h hfind

/-- A name stands for the same declaration in every later store. -/
theorem Extends.byName? (h : later.Extends earlier)
    (hname : earlier.byName? name = some declaration) : later.byName? name = some declaration :=
  List.IsPrefix.find?_eq_some h hname

/-! ## Shapes -/

theorem position?_lt (h : store.position? shape = some index) : index < store.length :=
  (List.findIdx?_eq_some_iff_getElem.mp h).1

/-- What a shape's look-up finds is at the shape's position. -/
theorem find?_eq_some_iff : store.find? shape = some declaration ↔
    ∃ index, store.position? shape = some index ∧ store.get? index = some declaration := by
  rw [find?, List.find?_eq_bind_findIdx?_getElem?, Option.bind_eq_some_iff]
  rfl

theorem mem_of_find? (h : store.find? shape = some declaration) : declaration ∈ store.entries :=
  List.mem_of_find?_eq_some h

theorem same_of_find? (h : store.find? shape = some declaration) :
    declaration.shape.same shape = true := by
  rw [find?] at h
  simpa using List.find?_some h

theorem find?_eq_none_iff :
    store.find? shape = none ↔ ∀ d ∈ store.entries, d.shape.same shape = false := by
  simp [find?]

/-- A shape that the store does not know is at the end once it is declared there. -/
theorem position?_push (h : store.find? shape = none)
    (hsame : declaration.shape.same shape = true) :
    (store.push declaration).position? shape = some store.length := by
  rw [position?, List.findIdx?_eq_some_iff_getElem]
  refine ⟨by simp [length], by simpa [length] using hsame, ?_⟩
  intro j hj
  have hlt : j < store.entries.length := hj
  have := find?_eq_none_iff.mp h _ (List.getElem_mem hlt)
  simpa [List.getElem_append_left hlt] using this

theorem get?_push (store : Store) (declaration : Declaration) :
    (store.push declaration).get? store.length = some declaration := by
  simp [get?, length]

/-- After a declaration is added, an index has what it had, or is the last one and has the new one. -/
theorem get?_push_eq_some {d : Declaration} : (store.push declaration).get? index = some d ↔
    store.get? index = some d ∨ index = store.length ∧ declaration = d := by
  rw [get?, get?, length, entries_push, List.getElem?_append]
  split
  · next hlt => simp [Nat.ne_of_lt hlt]
  · next hge =>
      rw [List.getElem?_eq_none (Nat.le_of_not_lt hge), List.getElem?_singleton]
      have hzero : index - store.entries.length = 0 ↔ index = store.entries.length := by omega
      split <;> simp_all

theorem find?_push (h : store.find? shape = none)
    (hsame : declaration.shape.same shape = true) :
    (store.push declaration).find? shape = some declaration :=
  find?_eq_some_iff.mpr ⟨store.length, position?_push h hsame, get?_push store declaration⟩

/-- For shapes that are the same, the same declaration is found. -/
theorem find?_congr (hs : shape.Proper) (ho : other.Proper) (h : shape.same other = true) :
    store.find? shape = store.find? other := by
  rw [find?, find?]
  congr 1
  funext d
  exact Shape.same_congr_right hs ho h

theorem position?_congr (hs : shape.Proper) (ho : other.Proper) (h : shape.same other = true) :
    store.position? shape = store.position? other := by
  rw [position?, position?]
  congr 1
  funext d
  exact Shape.same_congr_right hs ho h

/-! ## Names -/

/-- With distinct names, a declaration is the one that its name finds. -/
theorem byName?_of_mem (hnames : store.names.Nodup) (hmem : declaration ∈ store.entries) :
    store.byName? declaration.name = some declaration := by
  rw [byName?, List.find?_eq_some_iff_append]
  obtain ⟨before, after, happend⟩ := List.append_of_mem hmem
  refine ⟨beq_self_eq_true _, before, after, happend, fun d hd => ?_⟩
  rw [names, happend, List.map_append, List.nodup_append] at hnames
  have hne : d.name ≠ declaration.name :=
    hnames.2.2 _ (List.mem_map_of_mem hd) _ List.mem_cons_self
  simpa using hne

end SampleTypes.Store

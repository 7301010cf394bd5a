import SampleTypes.Proofs.Json.Records
import SampleTypes.Proofs.Outcomes

/-!
# Members that may be exchanged

A record that is made of members stays the same when they are put for others that mean the same
(`Yields.exchange`), when they come in another order (`Yields.perm`), and when members are added that mean
nothing (`yields_iff_of_adds`). It is not made at all if a field is meant twice (`Yields.pairwise`).
-/

namespace SampleTypes.Json.Reader

variable {α β σ : Type} {fields : List (Field σ)} {depth : Nat} {blank made : σ} {ms ms' : List Member}

/-! ## Fields that do not get in one another's way -/

/-- There is something that is read as the value. -/
def CanRead (reader : Reader α) (a : α) : Prop :=
  ∃ c c', reader c = .ok a c'

theorem Gives.canRead {reader : Reader α} {v : List UInt8} {a : α} (h : Gives reader v a) (hv : ValueText v) :
    CanRead reader a := by
  obtain ⟨c, c', -, hok⟩ := h.exists_ok hv
  exact ⟨c, c', hok⟩

/-- What two fields put into a record does not depend on which comes first. -/
def Field.Commutes (depth : Nat) (field other : Field σ) : Prop :=
  ∀ put put', CanRead (field.value depth) put → CanRead (other.value depth) put' →
    ∀ record, put (put' record) = put' (put record)

/-- Any two fields commute. -/
def Independent (fields : List (Field σ)) (depth : Nat) : Prop :=
  fields.Pairwise (Field.Commutes depth)

/-- Values that are put to different places may be put there in either order. -/
theorem commute_of_map {reader : Reader α} {reader' : Reader β} {put : α → σ → σ} {put' : β → σ → σ}
    (h : ∀ a b record, put a (put' b record) = put' b (put a record)) (f g : σ → σ)
    (hf : CanRead (put <$> reader) f) (hg : CanRead (put' <$> reader') g) (record : σ) :
    f (g record) = g (f record) := by
  obtain ⟨c, c', hok⟩ := hf
  obtain ⟨d, d', hok'⟩ := hg
  obtain ⟨a, -, rfl⟩ := map_eq_ok.mp hok
  obtain ⟨b, -, rfl⟩ := map_eq_ok.mp hok'
  exact h a b record

/-- Different fields of an independent list can be read in either order. -/
theorem Independent.commutes (h : Independent fields depth) {field other : Field σ} (hfield : field ∈ fields)
    (hother : other ∈ fields) (hne : field.name ≠ other.name) : field.Commutes depth other := by
  have hsymm : Std.Symm fun a b : Field σ => a.name ≠ b.name → a.Commutes depth b :=
    ⟨fun a b hab hne put put' hput hput' record => (hab hne.symm put' put hput' hput record).symm⟩
  have himp : ∀ {a b : Field σ}, a.Commutes depth b → a.name ≠ b.name → a.Commutes depth b :=
    fun hab _ => hab
  exact (List.Pairwise.imp himp h).forall_of_forall (fun field _ hself => absurd rfl hself) hfield hother hne

/-! ## Members in another order -/

/-- Every effect is that of a field, on a value that can be read for it. -/
theorem exists_field_of_mem {effects : List (Option (Effect σ))} {effect : Effect σ}
    (h : List.Forall₂ (Means fields depth) ms effects) (hms : ∀ m ∈ ms, ValueText m.value)
    (hmem : effect ∈ effects.reduceOption) : ∃ field ∈ fields, effect.field = field.name ∧
      CanRead (field.value depth) effect.put := by
  rw [List.reduceOption_mem_iff] at hmem
  obtain ⟨m, hm, hmeans⟩ := (exists_of_forall₂ h).2 _ hmem
  cases hmeans with
  | field _ hfield hvalue =>
      exact ⟨_, List.mem_of_find?_eq_some hfield, rfl, hvalue.canRead (hms m hm)⟩

/-- It does not matter in which order the members come. -/
theorem Yields.perm (hfields : Independent fields depth) (hms : ∀ m ∈ ms, ValueText m.value)
    (hperm : ms.Perm ms') (h : Yields fields depth blank ms made) : Yields fields depth blank ms' made := by
  obtain ⟨effects, heffects, hnodup, hrequired, rfl⟩ := h
  obtain ⟨effects', heffects', hperm'⟩ := List.perm_comp_forall₂ hperm.symm heffects
  have hreduced : effects'.reduceOption.Perm effects.reduceOption := hperm'.filterMap id
  have hnamed : (named effects').Perm (named effects) := hreduced.map _
  refine ⟨effects', heffects', hnamed.nodup_iff.mpr hnodup, fun field hfield hneeded => ?_, ?_⟩
  · exact hnamed.mem_iff.mpr (hrequired field hfield hneeded)
  · refine hreduced.symm.foldl_eq' (fun e he e' he' record => ?_) blank
    obtain ⟨field, hfield, hname, hput⟩ := exists_field_of_mem heffects hms he
    obtain ⟨field', hfield', hname', hput'⟩ := exists_field_of_mem heffects hms he'
    by_cases hsame : e.field = e'.field
    · -- A field that is meant once has one effect.
      rw [List.inj_on_of_nodup_map hnodup he he' hsame]
    · rw [hname, hname'] at hsame
      exact (hfields.commutes hfield hfield' hsame _ _ hput hput' record).symm

/-! ## Members that mean the same -/

/-- Members that mean the same may stand for one another. -/
theorem forall₂_exchange {r : Member → Option (Effect σ) → Prop} {effects : List (Option (Effect σ))}
    (hsame : List.Forall₂ (fun m m' => ∀ e, r m e → r m' e) ms ms') (h : List.Forall₂ r ms effects) :
    List.Forall₂ r ms' effects := by
  induction hsame generalizing effects with
  | nil => exact h
  | cons hm _ ih =>
      cases h with
      | cons hone hmore => exact .cons (hm _ hone) (ih hmore)

/-- Members may be put for others that mean the same. -/
theorem Yields.exchange
    (hsame : List.Forall₂ (fun m m' => ∀ e, Means fields depth m e → Means fields depth m' e) ms ms')
    (h : Yields fields depth blank ms made) : Yields fields depth blank ms' made := by
  obtain ⟨effects, heffects, hrest⟩ := h
  exact ⟨effects, forall₂_exchange hsame heffects, hrest⟩

/-! ## Members of one field -/

/-- The member is a field. -/
def Addresses (fields : List (Field σ)) (m : Member) (field : Field σ) : Prop :=
  ∃ key, Spells m.key key ∧ fields.find? (·.answersTo key) = some field

/-- A member that addresses a field has an effect on it. -/
theorem Means.of_addresses {m : Member} {field : Field σ} {e : Option (Effect σ)}
    (h : Means fields depth m e) (hfield : Addresses fields m field) : ∃ put, e = some ⟨field.name, put⟩ := by
  obtain ⟨key, hkey, hfound⟩ := hfield
  cases h with
  | field hkey' hfound' _ =>
      cases hkey.unique hkey'
      cases hfound.symm.trans hfound'
      exact ⟨_, rfl⟩
  | nothing hkey' hfound' =>
      cases hkey.unique hkey'
      cases hfound.symm.trans hfound'

/-- No two members of a record are the same field. -/
theorem Yields.pairwise (h : Yields fields depth blank ms made) :
    ms.Pairwise fun m m' => ∀ field, Addresses fields m field → ¬Addresses fields m' field := by
  obtain ⟨effects, heffects, hnodup, -, -⟩ := h
  induction heffects with
  | nil => exact .nil
  | @cons m e ms effects hmeans hrest ih =>
      refine .cons (fun m' hm' field hfield hfield' => ?_) (ih ?_)
      · obtain ⟨put, rfl⟩ := hmeans.of_addresses hfield
        obtain ⟨e', he', hmeans'⟩ := (exists_of_forall₂ hrest).1 m' hm'
        obtain ⟨put', rfl⟩ := Means.of_addresses hmeans' hfield'
        have hmem : field.name ∈ named effects :=
          List.mem_map.mpr ⟨_, List.reduceOption_mem_iff.mpr he', rfl⟩
        exact (List.nodup_cons.mp hnodup).1 hmem
      · cases e with
        | none => exact hnodup
        | some e => exact (List.nodup_cons.mp hnodup).2

/-! ## Members that are added -/

/-- Some members are added anywhere among the others. -/
inductive Adds (added : Member → Prop) : List Member → List Member → Prop
  | nil : Adds added [] []
  | keep (m : Member) {ms ms' : List Member} (h : Adds added ms ms') : Adds added (m :: ms) (m :: ms')
  | add {m : Member} {ms ms' : List Member} (hm : added m) (h : Adds added ms ms') :
      Adds added ms (m :: ms')

/-- What is put into a record decides, and not the members that mean nothing. -/
theorem Yields.of_reduced (h : Yields fields depth blank ms made)
    (heffects : ∀ effects, List.Forall₂ (Means fields depth) ms effects →
      ∃ effects', List.Forall₂ (Means fields depth) ms' effects' ∧
        effects'.reduceOption = effects.reduceOption) : Yields fields depth blank ms' made := by
  obtain ⟨effects, hmeans, hrest⟩ := h
  obtain ⟨effects', hmeans', hreduced⟩ := heffects effects hmeans
  refine ⟨effects', hmeans', ?_⟩
  rw [named, fill, hreduced]
  exact hrest

theorem reduceOption_cons_congr {es es' : List (Option (Effect σ))} (h : es'.reduceOption = es.reduceOption)
    (e : Option (Effect σ)) : (e :: es').reduceOption = (e :: es).reduceOption := by
  simp only [List.reduceOption, List.filterMap_cons] at h ⊢
  rw [h]

/-- Members that could only mean nothing may be taken away. -/
theorem Yields.of_adds {added : Member → Prop} (hadded : ∀ m e, added m → Means fields depth m e → e = none)
    (hadds : Adds added ms ms') (h : Yields fields depth blank ms' made) :
    Yields fields depth blank ms made := by
  refine h.of_reduced ?_
  clear h
  induction hadds with
  | nil => exact fun effects h => ⟨effects, h, rfl⟩
  | keep m _ ih =>
      rintro _ (_ | ⟨hm, hmore⟩)
      obtain ⟨effects, heffects, hreduced⟩ := ih _ hmore
      exact ⟨_, .cons hm heffects, reduceOption_cons_congr hreduced _⟩
  | add hm _ ih =>
      rintro _ (_ | ⟨hmeans, hmore⟩)
      obtain ⟨effects, heffects, hreduced⟩ := ih _ hmore
      cases hadded _ _ hm hmeans
      exact ⟨effects, heffects, hreduced⟩

/-- Members that mean nothing may be added. -/
theorem Yields.adds {added : Member → Prop} (hadded : ∀ m, added m → Means fields depth m none)
    (hadds : Adds added ms ms') (h : Yields fields depth blank ms made) :
    Yields fields depth blank ms' made := by
  refine h.of_reduced ?_
  clear h
  induction hadds with
  | nil => exact fun effects h => ⟨effects, h, rfl⟩
  | keep m _ ih =>
      rintro _ (_ | ⟨hm, hmore⟩)
      obtain ⟨effects, heffects, hreduced⟩ := ih _ hmore
      exact ⟨_, .cons hm heffects, reduceOption_cons_congr hreduced _⟩
  | add hm _ ih =>
      intro effects heffects
      obtain ⟨effects', heffects', hreduced⟩ := ih effects heffects
      exact ⟨none :: effects', .cons (hadded _ hm) heffects', hreduced⟩

/-! ## Members that are no fields -/

/-- A field goes by the name. -/
def Known (fields : List (Field σ)) (name : String) : Prop :=
  ∃ field ∈ fields, field.answersTo name = true

instance (fields : List (Field σ)) (name : String) : Decidable (Known fields name) :=
  inferInstanceAs (Decidable (∃ field ∈ fields, field.answersTo name = true))

/-- The key of the member is a name, and no field goes by it. -/
def Unknown (fields : List (Field σ)) (m : Member) : Prop :=
  ∃ name, Spells m.key name ∧ ¬Known fields name

/-- No field goes by the key of the member, which may be no name at all. -/
def NotKnown (fields : List (Field σ)) (m : Member) : Prop :=
  ∀ name, Spells m.key name → ¬Known fields name

theorem Known.exists_find? {name : String} (h : Known fields name) :
    ∃ field, fields.find? (·.answersTo name) = some field :=
  Option.isSome_iff_exists.mp (List.find?_isSome.mpr h)

theorem Unknown.notKnown {m : Member} (h : Unknown fields m) : NotKnown fields m := by
  obtain ⟨name, hname, hnot⟩ := h
  intro other hother
  rwa [hother.unique hname]

theorem Unknown.means {m : Member} (h : Unknown fields m) : Means fields depth m none := by
  obtain ⟨name, hname, hnot⟩ := h
  refine .nothing hname (List.find?_eq_none.mpr fun field hfield hanswers => ?_)
  exact hnot ⟨field, hfield, hanswers⟩

theorem NotKnown.eq_none {m : Member} {e : Option (Effect σ)} (h : NotKnown fields m)
    (hmeans : Means fields depth m e) : e = none := by
  cases hmeans with
  | field hkey hfield _ =>
      have hanswers := List.find?_some hfield
      exact absurd ⟨_, List.mem_of_find?_eq_some hfield, hanswers⟩ (h _ hkey)
  | nothing _ _ => rfl

end SampleTypes.Json.Reader

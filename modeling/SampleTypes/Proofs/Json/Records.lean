import Mathlib.Data.List.Nodup
import Mathlib.Data.List.Pairwise
import Mathlib.Data.List.Perm.Basic
import Mathlib.Data.List.ReduceOption
import SampleTypes.Proofs.Json.Parts

/-!
# Records from objects

What a record is read from an object depends on what the members mean to it, one by one (`Means`): a member is
one of the fields and puts a value there, or it is none and means nothing. The object is read if each member
means something, no field is meant twice and none that is needed is left out, and then the record is what the
members put into the blank one (`gives_record_iff`, with `Yields`).

Nothing else is left of the text. So it does not matter how the members are written, nor, if the fields do not
get in one another's way (`Independent`), in which order they come.
-/

namespace SampleTypes.Json.Reader

variable {α β σ : Type} {reader : Reader α} {a : α} {v rest inner text : List UInt8} {depth : Nat}
  {fields : List (Field σ)} {blank made : σ} {ms ms' : List Member}

/-! ## What members mean -/

/-- What a member that is a field does: it puts a value into the record, under the field's name. -/
structure Effect (σ : Type) where
  field : String
  put : σ → σ

/-- What a member means to a record with the fields. -/
inductive Means (fields : List (Field σ)) (depth : Nat) (m : Member) : Option (Effect σ) → Prop
  | field {key field put} (hkey : Spells m.key key) (hfield : fields.find? (·.answersTo key) = some field)
      (hvalue : Gives (field.value depth) m.value put) : Means fields depth m (some ⟨field.name, put⟩)
  | nothing {key} (hkey : Spells m.key key) (hfield : fields.find? (·.answersTo key) = none) :
      Means fields depth m none

/-- The names of the fields that are meant. -/
def named (effects : List (Option (Effect σ))) : List String :=
  effects.reduceOption.map (·.field)

/-- The record with all that is put into it. -/
def fill (effects : List (Option (Effect σ))) (record : σ) : σ :=
  effects.reduceOption.foldl (fun record effect => effect.put record) record

/-- The members make the record out of the blank one. -/
def Yields (fields : List (Field σ)) (depth : Nat) (blank : σ) (ms : List Member) (record : σ) : Prop :=
  ∃ effects, List.Forall₂ (Means fields depth) ms effects ∧ (named effects).Nodup ∧
    (∀ field ∈ fields, field.required = true → field.name ∈ named effects) ∧ record = fill effects blank

/-! ## One member after another -/

/-- The draft after a member, unless its field has been seen before. -/
inductive Draft.Takes (draft : Draft σ) : Option (Effect σ) → Draft σ → Prop
  | field {effect : Effect σ} (hnew : effect.field ∉ draft.seen) :
      draft.Takes (some effect) ⟨effect.field :: draft.seen, effect.put draft.value⟩
  | nothing : draft.Takes none draft

/-- What a member makes of a draft. -/
def Turn (fields : List (Field σ)) (depth : Nat) (draft : Draft σ) (m : Member) (draft' : Draft σ) : Prop :=
  ∃ effect, Means fields depth m effect ∧ draft.Takes effect draft'

/-- Whatever a member makes of a draft, it is a turn. -/
theorem ensures_fieldMember (hfields : ∀ field ∈ fields, Measured (field.value depth)) {m : Member}
    (hv : ValueText m.value) {draft : Draft σ} {key : String} {before : List UInt8} (hkey : Spells m.key key)
    (hrest : Delimits rest) (hm : m.Remains rest before) :
    Ensures (fieldMember fields depth draft key) before fun draft' after =>
      Turn fields depth draft m draft' ∧ after = rest := by
  rw [fieldMember]
  split
  · next field hfield =>
      split
      · exact (fails_refuseLater _).ensures
      · next hnew =>
          -- A known field that is new: its value is read with the reader of the field.
          have hmeasured := hfields field (List.mem_of_find?_eq_some hfield)
          have hvalue : Ensures (memberValue key (field.value depth)) before fun put after =>
              Gives (field.value depth) m.value put ∧ after = rest :=
            ensures_memberValue hm fun front hfront => hmeasured.gives hv hrest (visible_value hv hfront)
          refine hvalue.bind ?_
          rintro put middle ⟨hput, hmiddle⟩ c draft' c' hc ⟨⟩
          have hnot : field.name ∉ draft.seen := fun hmem => hnew (List.contains_iff_mem.mpr hmem)
          exact ⟨⟨_, .field hkey hfield hput, .field hnot⟩, hc.trans hmiddle⟩
  · next hfield =>
      -- No field answers to the key, so the value is passed over.
      have hpassed : Ensures (memberValue key passValue) before fun _ after => after = rest :=
        ensures_memberValue hm fun front hfront => (reads_passValue hv (visible_value hv hfront) hrest).leaves
      refine Leaves.bind hpassed fun _ => ?_
      rintro c draft' c' hc ⟨⟩
      exact ⟨⟨_, .nothing hkey hfield, .nothing⟩, hc⟩

/-- A turn that can be taken is read from its member. -/
theorem reads_fieldMember {m : Member} (hv : ValueText m.value) {draft draft' : Draft σ}
    (h : Turn fields depth draft m draft') : ∃ key, Spells m.key key ∧ ∀ before rest, Delimits rest →
      m.Remains rest before → Reads (fieldMember fields depth draft key) before draft' rest := by
  obtain ⟨effect, hmeans, htakes⟩ := h
  cases hmeans with
  | @field key field put hkey hfield hvalue =>
      cases htakes with
      | field hnew =>
          refine ⟨key, hkey, fun before rest _ hm => ?_⟩
          have hput : Reads (memberValue key (field.value depth)) before put rest :=
            reads_memberValue hm fun front hfront => hvalue _ rest (visible_value hv hfront)
          have hcontains : ¬draft.seen.contains field.name = true := mt List.contains_iff_mem.mp hnew
          simp only [fieldMember, hfield, hcontains]
          exact hput.bind (reads_pure _ rest)
  | @nothing key hkey hfield =>
      cases htakes
      refine ⟨key, hkey, fun before rest hrest hm => ?_⟩
      have hpassed : Reads (memberValue key passValue) before () rest :=
        reads_memberValue hm fun front hfront => reads_passValue hv (visible_value hv hfront) hrest
      simp only [fieldMember, hfield]
      exact hpassed.bind (reads_pure _ rest)

theorem folds_cons_iff {turn : σ → Member → σ → Prop} {m : Member} {s s' : σ} :
    Folds turn s (m :: ms) s' ↔ ∃ middle, turn s m middle ∧ Folds turn middle ms s' := by
  constructor
  · rintro ⟨⟩
    exact ⟨_, ‹_›, ‹_›⟩
  · rintro ⟨middle, hone, hmore⟩
    exact .cons hone hmore

theorem named_some (e : Effect σ) (es : List (Option (Effect σ))) (seen : List String) :
    (named (some e :: es)).reverse ++ seen = (named es).reverse ++ e.field :: seen := by
  have hnamed : named (some e :: es) = e.field :: named es := rfl
  rw [hnamed, List.reverse_cons, List.append_assoc, List.singleton_append]

/-- The members are taken in turn if all of them mean something and no field is meant twice. -/
theorem folds_turn_iff {draft draft' : Draft σ} (hseen : draft.seen.Nodup) :
    Folds (Turn fields depth) draft ms draft' ↔ ∃ effects, List.Forall₂ (Means fields depth) ms effects ∧
      ((named effects).reverse ++ draft.seen).Nodup ∧
      draft' = ⟨(named effects).reverse ++ draft.seen, fill effects draft.value⟩ := by
  -- The names that have been seen stand in the draft, the last one in front.
  induction ms generalizing draft draft' with
  | nil =>
      constructor
      · rintro ⟨⟩
        exact ⟨[], .nil, hseen, rfl⟩
      · rintro ⟨effects, ⟨⟩, -, rfl⟩
        exact .nil draft
  | cons m ms ih =>
      rw [folds_cons_iff]
      constructor
      · rintro ⟨middle, ⟨effect, hmeans, htakes⟩, hmore⟩
        cases htakes with
        | @field effect hnew =>
            obtain ⟨effects, heffects, hnodup, rfl⟩ := (ih (List.nodup_cons.mpr ⟨hnew, hseen⟩)).mp hmore
            refine ⟨some effect :: effects, .cons hmeans heffects, ?_, ?_⟩
            · rwa [named_some]
            · rw [named_some]
              rfl
        | nothing =>
            obtain ⟨effects, heffects, hnodup, rfl⟩ := (ih hseen).mp hmore
            exact ⟨none :: effects, .cons hmeans heffects, hnodup, rfl⟩
      · rintro ⟨effects, heffects, hnodup, rfl⟩
        cases heffects with
        | @cons _ effect _ effects hmeans heffects =>
            cases effect with
            | some effect =>
                rw [named_some] at hnodup ⊢
                have hseen' := (List.nodup_append.mp hnodup).2.1
                have hmore : Folds (Turn fields depth) ⟨effect.field :: draft.seen, effect.put draft.value⟩ ms
                    ⟨(named effects).reverse ++ effect.field :: draft.seen,
                      fill effects (effect.put draft.value)⟩ :=
                  (ih hseen').mpr ⟨effects, heffects, hnodup, rfl⟩
                exact ⟨_, ⟨_, hmeans, .field (List.nodup_cons.mp hseen').1⟩, hmore⟩
            | none => exact ⟨draft, ⟨none, hmeans, .nothing⟩, (ih hseen).mpr ⟨effects, heffects, hnodup, rfl⟩⟩

/-! ## Whole records -/

/-- Nothing is missing if all required fields have been seen. -/
theorem nothing_missing_iff {seen : List String} :
    (fields.find? fun field => field.required && !seen.contains field.name) = none ↔
      ∀ field ∈ fields, field.required = true → field.name ∈ seen := by
  simp [List.find?_eq_none]

/-- What is read from the members of an object. -/
theorem ensures_recordFromMembers (hfields : ∀ field ∈ fields, Measured (field.value depth))
    {parts : List (List UInt8)} (hparts : List.Forall₂ Member.Text ms parts)
    (hinner : Enclosed 0x7D parts inner) (hms : ProperMembers ms) (blank : σ) (rest : List UInt8) :
    Ensures (recordFromMembers fields depth blank) (inner ++ rest) fun record after =>
      Yields fields depth blank ms record ∧ after = 0x7D :: rest := by
  have hturn : ∀ m ∈ ms, ∀ draft key before rest, Spells m.key key → Delimits rest → m.Remains rest before →
      Ensures (fieldMember fields depth draft key) before fun draft' after =>
        Turn fields depth draft m draft' ∧ after = rest :=
    fun m hm _ _ _ _ hkey hrest hremains => ensures_fieldMember hfields (hms m hm).2 hkey hrest hremains
  have hmembers := ensures_members hparts hinner (fun m hm => (hms m hm).1) hturn ⟨[], blank⟩ rest
  refine hmembers.bind ?_
  rintro draft middle ⟨hfolds, hmiddle⟩
  obtain ⟨effects, heffects, hnodup, rfl⟩ := (folds_turn_iff List.nodup_nil).mp hfolds
  split
  · exact (fails_refuseLater _).ensures
  · next hmissing =>
      rintro c record c' hc ⟨⟩
      rw [List.append_nil, List.nodup_reverse] at hnodup
      rw [List.append_nil, nothing_missing_iff] at hmissing
      refine ⟨⟨effects, heffects, hnodup, fun field hfield hrequired => ?_, rfl⟩, hc.trans hmiddle⟩
      exact List.mem_reverse.mp (hmissing field hfield hrequired)

/-- What members yield is read from them, wherever white space stands. -/
theorem reads_recordFromMembers {parts : List (List UInt8)} (hparts : List.Forall₂ Member.Text ms parts)
    (hinner : Enclosed 0x7D parts inner) (hms : ProperMembers ms) (h : Yields fields depth blank ms made)
    (rest : List UInt8) :
    Reads (recordFromMembers fields depth blank) (inner ++ rest) made (0x7D :: rest) := by
  obtain ⟨effects, heffects, hnodup, hrequired, rfl⟩ := h
  have hfolds : Folds (Turn fields depth) ⟨[], blank⟩ ms
      ⟨(named effects).reverse ++ [], fill effects blank⟩ := by
    refine (folds_turn_iff List.nodup_nil).mpr ⟨effects, heffects, ?_, rfl⟩
    rwa [List.append_nil, List.nodup_reverse]
  have hmembers := reads_members hparts hinner
    (fun m hm draft draft' hturn => reads_fieldMember (hms m hm).2 hturn) hfolds rest
  refine hmembers.bind ?_
  have hmissing := nothing_missing_iff.mpr fun field hfield hneeded =>
    List.mem_append_left [] (List.mem_reverse.mpr (hrequired field hfield hneeded))
  simp only [hmissing]
  exact reads_pure _ _

/-! ## Records from lists -/

/-- A list is not closed where another item or a comma stands. -/
theorem ensures_endList_of_ne {before more : List UInt8} {b : UInt8} {condition : Unit → List UInt8 → Prop}
    (h : visible before = b :: more) (hb : b ≠ 0x5D) : Ensures endList before condition := by
  refine (reads_token_visible h).ensures.bind ?_
  rintro x middle ⟨rfl, rfl⟩
  split
  · next h => cases h
  · next h => exact absurd (Option.some.inj h) hb
  · refine Fails.ensures (fails_bind fun _ => fails_bind fun y => ?_)
    split <;> exact fails_refuseNext _
  · exact (fails_refuseNext _).ensures

/-- A list ends where no part is left. -/
theorem leaves_endList_ahead {first : Bool} {vs parts : List (List UInt8)} {before : List UInt8}
    (h : Ahead 0x5D rest first parts before) (hparts : List.Forall₂ Padded vs parts)
    (hvs : ∀ v ∈ vs, ValueText v) : Leaves endList before rest := by
  cases hparts with
  | nil => exact ((reads_token_visible (h.visible_nil (.inl rfl))).bind (reads_pass 0x5D rest)).leaves
  | @cons v part vs parts hpart _ =>
      cases h with
      | first h =>
          cases h
          obtain ⟨hv, -⟩ := List.forall_mem_cons.mp hvs
          obtain ⟨back, -, -, hvisible⟩ := hpart.exists_visible hv
          have hbefore := hvisible (following 0x5D parts ++ rest)
          rw [← List.append_assoc] at hbefore
          obtain ⟨b, more, rfl, hb⟩ := hv.begins
          exact ensures_endList_of_ne hbefore (hb.ne_closer (.inl rfl))
      | later h => exact ensures_endList_of_ne h (by decide)

/-- The fields are read from the items in order. If there are more items, the list is not closed. -/
theorem ensures_recordFromItems (expected : String) (hfields : ∀ field ∈ fields, Measured (field.value depth))
    {vs parts : List (List UInt8)} {before : List UInt8} {index : Nat}
    (hahead : Ahead 0x5D rest (index == 0) parts before) (hparts : List.Forall₂ Padded vs parts)
    (hvs : ∀ v ∈ vs, ValueText v) (record : σ) :
    Ensures (recordFromItems expected depth fields index record) before fun _ after =>
      Leaves endList after rest := by
  -- Items and fields run out one before the other, or together.
  induction fields generalizing vs parts before index record with
  | nil =>
      rintro c record' c' rfl ⟨⟩
      exact leaves_endList_ahead hahead hparts hvs
  | cons field fields ih =>
      rw [List.forall_mem_cons] at hfields
      cases hparts with
      | nil =>
          refine (reads_nextItem_nil hahead).ensures.bind ?_
          rintro more middle ⟨rfl, rfl⟩
          simp only [Bool.false_eq_true, if_false]
          split
          · exact (fails_refuseLater _).ensures
          · rintro c record' c' hc ⟨⟩
            rw [hc]
            exact (reads_endList rest).leaves
      | @cons v part vs parts hpart hparts =>
          rw [List.forall_mem_cons] at hvs
          obtain ⟨back, hback, hnext⟩ := reads_nextItem_cons hahead hpart hvs.1
          refine hnext.ensures.bind ?_
          rintro more middle ⟨rfl, rfl⟩
          have hwhole := hfields.1.whole hvs.1 (hback.delimits (delimits_following (.inl rfl) parts rest))
            (hvs.1.visible_append _)
          refine Leaves.bind (hwhole.within (.item index)) fun put => ?_
          exact ih hfields.2 (ahead_later (.inl rfl) hback parts) hparts hvs.2 (put record)

/-! ## Whole records -/

theorem measured_record (name : String) (blank : σ)
    (h : ∀ inner, depth = inner + 1 → ∀ field ∈ fields, Measured (field.value inner)) :
    Measured (record name fields blank depth) := by
  refine measured_token_bind (closes_record name blank fun inner hinner field hfield =>
    (h inner hinner field hfield).closes.peeks) fun {b v rest} hv _ => ?_
  split
  · next h => cases h
  · next heq =>
      cases heq
      obtain ⟨vs, parts, hparts, henclosed, hvs⟩ := hv.of_bracket
      have hahead : Ahead 0x5D rest true parts (v ++ rest) := .first henclosed
      refine Ensures.placed (Ensures.enter fun inner hinner => ?_)
      exact (ensures_recordFromItems _ (h inner hinner) hahead hparts hvs blank).closing
        fun _ _ hleaves => hleaves
  · next heq =>
      cases heq
      obtain ⟨ms, parts, hparts, henclosed, hms⟩ := hv.of_brace
      refine Ensures.placed (Ensures.enter fun inner hinner => ?_)
      refine (ensures_recordFromMembers (h inner hinner) hparts henclosed hms blank rest).closing ?_
      rintro record middle ⟨-, rfl⟩
      exact (reads_endMap rest).leaves
  · exact (fails_wrongType _).ensures

/-- **What is read from an object** is what its members make of the blank record. -/
theorem gives_record_iff (name : String) (hfields : ∀ field ∈ fields, Measured (field.value depth))
    (hms : ProperMembers ms) (htext : ObjectText ms text) :
    Gives (record name fields blank (depth + 1)) text made ↔ Yields fields depth blank ms made := by
  obtain ⟨parts, inner, hparts, henclosed, rfl⟩ := htext
  constructor
  · intro h
    have hvisible : visible (0x7B :: inner) = 0x7B :: inner := visible_cons rfl inner
    -- What is given is read from the object itself, and a reading is a fold over its members.
    have hread := h (0x7B :: inner) [] (by rw [hvisible, List.append_nil])
    have hmembers : Ensures (recordFromMembers fields depth blank) inner fun made after =>
        Yields fields depth blank ms made ∧ after = [0x7D] := by
      have hinner := ensures_recordFromMembers hfields hparts henclosed hms blank []
      rwa [List.append_nil] at hinner
    have hrecord : Ensures (record name fields blank (depth + 1)) (0x7B :: inner) fun made _ =>
        Yields fields depth blank ms made := by
      refine (reads_token_visible hvisible).ensures.bind ?_
      rintro x middle ⟨rfl, rfl⟩
      refine Ensures.placed (Ensures.enter fun d hd => ?_)
      cases hd
      refine hmembers.closing ?_
      rintro made middle ⟨hmade, -⟩
      exact fun _ _ _ _ _ => hmade
    obtain ⟨c, hok, -⟩ := hread.exists_ok (c := ⟨0x7B :: inner, 1, 0⟩) rfl
    exact hrecord _ made c rfl hok
  · intro h before rest hbefore
    have hmembers := (reads_recordFromMembers hparts henclosed hms h rest).readsIf trivial
    have hclosed := (hmembers.closing (reads_endMap rest)).1 trivial
    have hentered : Reads (enter (depth + 1) fun d => closing (recordFromMembers fields d blank) endMap)
        (0x7B :: (inner ++ rest)) made rest :=
      (reads_pass 0x7B _).bind hclosed
    exact (reads_token_visible hbefore).bind ((hentered.readsIf trivial).placed.1 trivial)

end SampleTypes.Json.Reader

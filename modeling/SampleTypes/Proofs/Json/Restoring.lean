import SampleTypes.Proofs.Json.Basic
import SampleTypes.Proofs.Json.Containers

/-!
# Typed values that are written are read back

A reader restores a value from its saved form if it reads the value from the form's bytes, whatever
follows them, and does so exactly if the form is not nested more deeply than the reader allows
(`Restores`). The rules below are those of the readers of typed values: a form that holds forms which are
restored is restored itself, and takes one more container.
-/

namespace SampleTypes.Json.Reader

variable {α β σ : Type} {depth : Nat} {reader : Reader α} {json : Json} {a : α}

/-- The value is read from its saved form if the form fits in the depth, and is refused else. -/
def Restores (depth : Nat) (reader : Reader α) (json : Json) (a : α) : Prop :=
  ∀ after, ReadsIf (json.depth ≤ depth) reader (json.bytes ++ after) a after

theorem Restores.map (f : α → β) (h : Restores depth reader json a) :
    Restores depth (f <$> reader) json (f a) :=
  fun after => (h after).functor_map f

/-! ## Values without parts -/

theorem restores_text (depth : Nat) (expected s : String) :
    Restores depth (text expected) (.string s) s := by
  intro after
  rw [bytes_string, List.cons_append, List.append_assoc]
  refine Reads.readsIf ?_ (Nat.zero_le depth)
  exact (reads_token rfl _).bind ((reads_pass 0x22 _).bind (reads_string s after))

/-- A word in ASCII is read letter by letter. -/
theorem reads_word (letters : List Char) (hascii : letters.all (·.toNat < 0x80) = true)
    (after : List UInt8) : Reads (word letters) (utf8 letters ++ after) () after := by
  induction letters with
  | nil => exact reads_pure () after
  | cons c letters ih =>
      rw [List.all_cons, Bool.and_eq_true, decide_eq_true_eq] at hascii
      have hv : c.val.toNat = c.toNat := rfl
      have hbyte : String.utf8EncodeChar c = [UInt8.ofNat c.toNat] := by
        rw [String.utf8EncodeChar]
        exact if_pos (show c.val.toNat ≤ 0x7F by omega)
      have hnat : (UInt8.ofNat c.toNat).toNat = c.toNat := by
        rw [UInt8.toNat_ofNat']
        omega
      rw [utf8_cons, hbyte, List.append_assoc, List.singleton_append]
      refine (reads_take _ _).bind ?_
      simp only [hnat, beq_self_eq_true, if_true]
      exact ih hascii.2

theorem restores_bool (depth : Nat) (b : Bool) : Restores depth bool (.bool b) b := by
  intro after
  refine Reads.readsIf ?_ (Nat.zero_le depth)
  cases b with
  | false =>
      have hword := reads_word ['a', 'l', 's', 'e'] (by decide) after
      exact (reads_token rfl _).bind ((reads_pass 0x66 _).bind (hword.bind (reads_pure false _)))
  | true =>
      have hword := reads_word ['r', 'u', 'e'] (by decide) after
      exact (reads_token rfl _).bind ((reads_pass 0x74 _).bind (hword.bind (reads_pure true _)))

theorem restores_nullable_none (depth : Nat) (reader : Reader α) :
    Restores depth (nullable reader) .null none := by
  intro after
  refine Reads.readsIf ?_ (Nat.zero_le depth)
  have hword := reads_word ['u', 'l', 'l'] (by decide) after
  exact (reads_token rfl _).bind ((reads_pass 0x6E _).bind (hword.bind (reads_pure none _)))

/-- A value whose form does not begin as `null` does. -/
theorem Restores.nullable {b : UInt8} (h : Restores depth reader json a) (hopens : json.Opens b)
    (hblank : Cursor.isBlank b = false) (hb : b ≠ 0x6E) :
    Restores depth (nullable reader) json (some a) := by
  intro after
  obtain ⟨rest, hrest⟩ := hopens
  have hsome := (h after).functor_map some
  rw [hrest, List.cons_append] at hsome ⊢
  refine (reads_token hblank _).bind_readsIf ?_
  split
  · next heq => exact absurd (Option.some.inj heq) hb
  · exact hsome

/-- A name out of a fixed set. -/
theorem restores_variant {variants : List (String × α)} {name : String}
    (h : variants.find? (·.1 == name) = some (name, a)) :
    Restores depth (variant depth variants) (.string name) a := by
  intro after
  rw [bytes_string, List.cons_append, List.append_assoc]
  have hnamed : Reads (variantNamed variants name) after a after := by
    rw [variantNamed, h]
    exact reads_pure a after
  refine (reads_token rfl _).bind_readsIf (ReadsIf.placed (Reads.readsIf ?_ (Nat.zero_le depth)))
  refine (reads_pass 0x22 _).bind ?_
  exact (reads_string name after).bind hnamed

/-! ## Lists and maps -/

/-- A list is restored item by item, one level deeper. -/
theorem restores_list {item : Nat → Reader α} {toJson : α → Json} {as : List α}
    (hitem : ∀ inner, depth = inner + 1 → ∀ a ∈ as, Restores inner (item inner) (toJson a) a)
    (hopens : ∀ a ∈ as, ∃ b, BeginsItem b ∧ (toJson a).Opens b) :
    Restores depth (list depth item) (.array (as.map toJson)) as := by
  intro after
  have hbytes : (Json.array (as.map toJson)).bytes = 0x5B :: utf8 (writeItems (as.map toJson)) := by
    rw [bytes, write, utf8_cons]
    rfl
  rw [hbytes, List.cons_append]
  refine (reads_token rfl _).bind_readsIf (ReadsIf.placed ?_)
  refine ReadsIf.congr (ReadsIf.enter fun inner hinner => ?_) depth_array_le.symm
  subst hinner
  refine ReadsIf.closing ?_ (reads_endList after)
  refine (readsIf_items (fun a ha after => hitem inner rfl a ha after) hopens).congr ?_
  rw [List.forall_mem_map, Nat.add_sub_cancel]

theorem bytes_object (members : List (String × Json)) :
    (Json.object members).bytes = 0x7B :: utf8 (writeMembers members) := by
  rw [bytes, write, utf8_cons]
  rfl

/-- Setting the values one by one makes the entries, as the keys are distinct. -/
theorem readsIf_entries (toJson : α → Json) {entries : Entries α} (hd : entries.Distinct)
    (hvalue : ∀ entry ∈ entries, Restores depth reader (toJson entry.2) entry.2)
    (after : List UInt8) :
    ReadsIf (∀ entry ∈ entries, (toJson entry.2).depth ≤ depth) (Reader.entries reader)
      (utf8 (writeMembers (entries.map fun entry => (entry.1, toJson entry.2))) ++ after) entries
      (0x7D :: after) := by
  have hloop : ReadsMembers
      (fun (sofar : Entries α) key => do return sofar.set key (← memberValue key reader))
      (fun entry : String × α => (entry.1, toJson entry.2))
      (fun entry : String × α => (toJson entry.2).depth ≤ depth)
      (fun sofar entry => Entries.set entry.1 entry.2 sofar)
      (fun _ left => ∀ entry ∈ left, Restores depth reader (toJson entry.2) entry.2) := by
    constructor
    · intro s m ms hgood
      exact fun entry hentry => hgood entry (List.mem_cons_of_mem _ hentry)
    · intro s m ms hgood after
      exact ((hgood m List.mem_cons_self after).memberValue m.1).map rfl
  have hentries : entries.foldl (fun sofar entry => Entries.set entry.1 entry.2 sofar) [] =
      entries := Entries.ofList_of_distinct hd
  have hmembers := hloop.members (s := []) hvalue after
  rwa [hentries] at hmembers

/-- An object with any keys is restored entry by entry, as its keys are distinct. -/
theorem restores_map {value : Nat → Reader α} {toJson : α → Json} {entries : Entries α}
    (hd : entries.Distinct)
    (hvalue : ∀ inner, depth = inner + 1 → ∀ entry ∈ entries,
      Restores inner (value inner) (toJson entry.2) entry.2) :
    Restores depth (map depth value)
      (.object (entries.map fun entry => (entry.1, toJson entry.2))) entries := by
  intro after
  rw [bytes_object, List.cons_append]
  refine (reads_token rfl _).bind_readsIf (ReadsIf.placed ?_)
  refine ReadsIf.congr (ReadsIf.enter fun inner hinner => ?_) depth_object_le.symm
  subst hinner
  rw [List.forall_mem_map, Nat.add_sub_cancel]
  exact ReadsIf.closing (readsIf_entries toJson hd (hvalue inner rfl) _) (reads_endMap after)

/-! ## Documents -/

theorem reads_valueWith_null (container : UInt8 → Reader Json) (after : List UInt8) :
    Reads (valueWith container) (Json.null.bytes ++ after) .null after := by
  have hword := reads_word ['u', 'l', 'l'] (by decide) after
  exact (reads_token rfl _).bind ((reads_pass 0x6E _).bind (hword.bind (reads_pure Json.null _)))

theorem restores_null (depth : Nat) : Restores depth (value depth) .null .null := by
  intro after
  refine Reads.readsIf ?_ (Nat.zero_le depth)
  cases depth <;> exact reads_valueWith_null _ after

theorem restores_object {members : List (String × Json)} (hd : Entries.Distinct members)
    (hvalue : ∀ inner, depth = inner + 1 → ∀ member ∈ members,
      Restores inner (value inner) member.2 member.2) :
    Restores depth (value depth) (.object members) (.object members) := by
  intro after
  rw [bytes_object, List.cons_append]
  refine ReadsIf.congr ?_ depth_object_le.symm
  cases depth with
  | zero =>
      refine Refuses.readsIf ?_ fun h => absurd h.1 (Nat.lt_irrefl 0)
      exact (reads_token rfl _).bind_refuses (refuses_refuseNext _ _)
  | succ inner =>
      have hentries := readsIf_entries id hd (hvalue inner rfl) after
      simp only [id, List.map_id'] at hentries
      have hobject := ((hentries.closing (reads_endMap after)).functor_map Json.object)
      refine ((reads_token rfl _).bind_readsIf ((reads_pass 0x7B _).bind_readsIf hobject)).congr ?_
      exact ⟨fun h => ⟨Nat.succ_pos inner, h⟩, And.right⟩

theorem reads_endOfText : Reads endOfText [] () [] := by
  intro line column
  exact ⟨line, column, rfl⟩

/-! ## Records -/

/-- A member of a record as it is written: its key and value, the field it belongs to, and what its
value does to the record. -/
structure Written (σ : Type) where
  key : String
  json : Json
  field : Field σ
  put : σ → σ

def Written.text (written : Written σ) : String × Json :=
  (written.key, written.json)

/-- What the members make of a record, one after the other. -/
def Written.fill (blank : σ) (ms : List (Written σ)) : σ :=
  ms.foldl (fun record written => written.put record) blank

/-- The members' fields are fields of the record, none comes twice, and none of those that are needed is
left out. -/
structure Selects (fields : List (Field σ)) (ms : List (Written σ)) : Prop where
  found : ∀ written ∈ ms, fields.find? (·.answersTo written.key) = some written.field
  nodup : (ms.map (·.field.name)).Nodup
  complete : ∀ field ∈ fields, field.required = true → field.name ∈ ms.map (·.field.name)

/-- A field that is written under its own name. -/
def Field.written (field : Field σ) (json : Json) (put : σ → σ) : Written σ :=
  ⟨field.name, json, field, put⟩

/-- No name or spelling belongs to two fields. -/
def Unambiguous (fields : List (Field σ)) : Prop :=
  (fields.flatMap fun field => field.name :: field.spellings).Nodup

theorem answersTo_iff {field : Field σ} {key : String} :
    field.answersTo key = true ↔ key ∈ field.name :: field.spellings := by
  rw [Field.answersTo, Bool.or_eq_true, beq_iff_eq, List.contains_iff_mem, List.mem_cons, eq_comm]

/-- Without ambiguity, a field is found by its name and by every spelling of it. -/
theorem Unambiguous.find? {fields : List (Field σ)} (h : Unambiguous fields) {field : Field σ}
    (hfield : field ∈ fields) {key : String} (hkey : key ∈ field.name :: field.spellings) :
    fields.find? (·.answersTo key) = some field := by
  induction fields with
  | nil => exact absurd hfield List.not_mem_nil
  | cons first fields ih =>
      rw [Unambiguous, List.flatMap_cons, List.nodup_append] at h
      obtain ⟨-, hrest, hdisjoint⟩ := h
      rcases List.mem_cons.mp hfield with rfl | hfield
      · exact List.find?_cons_of_pos (answersTo_iff.mpr hkey)
      · rw [List.find?_cons_of_neg, ih hrest hfield]
        intro hfirst
        refine hdisjoint key (answersTo_iff.mp hfirst) key ?_ rfl
        exact List.mem_flatMap.mpr ⟨field, hfield, hkey⟩

/-- Fields that cannot be taken for one another have different names. -/
theorem Unambiguous.nodup_names {fields : List (Field σ)} (h : Unambiguous fields) :
    (fields.map (·.name)).Nodup := by
  refine List.Sublist.nodup ?_ h
  clear h
  induction fields with
  | nil => exact List.Sublist.refl _
  | cons field fields ih =>
      rw [List.map_cons, List.flatMap_cons, List.cons_append]
      exact (ih.trans (List.sublist_append_right _ _)).cons_cons _

/-- The members for the first fields of a record, with the values that belong to them in order. -/
def Written.along (fields : List (Field σ)) (values : List (Json × (σ → σ))) : List (Written σ) :=
  List.zipWith (fun field value => field.written value.1 value.2) fields values

theorem Written.fields_along (fields : List (Field σ)) (values : List (Json × (σ → σ))) :
    (Written.along fields values).map (·.field) = fields.take values.length := by
  induction fields generalizing values with
  | nil => cases values <;> rfl
  | cons field fields ih =>
      cases values with
      | nil => rfl
      | cons value values =>
          rw [along, List.zipWith_cons_cons, List.map_cons, ← along, ih]
          rfl

theorem Written.key_along {fields : List (Field σ)} {values : List (Json × (σ → σ))} :
    ∀ written ∈ Written.along fields values, written.key = written.field.name := by
  intro written hwritten
  obtain ⟨i, hi, rfl⟩ := List.getElem_of_mem hwritten
  simp [along, Field.written]

/-- Members for the first fields are well chosen if the others may be left out. -/
theorem selects_along {fields : List (Field σ)} (hfields : Unambiguous fields)
    (values : List (Json × (σ → σ)))
    (hrest : ∀ field ∈ fields.drop values.length, field.required = false) :
    Selects fields (Written.along fields values) where
  found written hwritten := by
    have hmem : written.field ∈ fields := by
      refine List.mem_of_mem_take (i := values.length) ?_
      rw [← Written.fields_along]
      exact List.mem_map_of_mem hwritten
    rw [Written.key_along written hwritten]
    exact hfields.find? hmem List.mem_cons_self
  nodup := by
    have hsplit : (Written.along fields values).map (·.field.name) =
        (fields.take values.length).map (·.name) := by
      rw [← Written.fields_along, List.map_map]
      rfl
    rw [hsplit]
    exact ((List.take_sublist values.length fields).map _).nodup hfields.nodup_names
  complete field hfield hrequired := by
    rw [← List.take_append_drop values.length fields, List.mem_append] at hfield
    rcases hfield with hfield | hfield
    · rw [← Written.fields_along] at hfield
      obtain ⟨written, hwritten, rfl⟩ := List.mem_map.mp hfield
      exact List.mem_map_of_mem hwritten
    · rw [hrest field hfield] at hrequired
      cases hrequired

/-- Members that no field needs may be left out. -/
theorem Selects.sublist {fields : List (Field σ)} {ms kept : List (Written σ)}
    (h : Selects fields ms) (hkept : kept.Sublist ms)
    (hcomplete : ∀ field ∈ fields, field.required = true → field.name ∈ kept.map (·.field.name)) :
    Selects fields kept where
  found written hwritten := h.found written (hkept.subset hwritten)
  nodup := (hkept.map _).nodup h.nodup
  complete := hcomplete

/-- The state of a record's loop after a member. -/
private def draftStep (draft : Draft σ) (written : Written σ) : Draft σ :=
  ⟨written.field.name :: draft.seen, written.put draft.value⟩

/-- All members together fill the draft, and their names have been seen. -/
private theorem foldl_draftStep (ms : List (Written σ)) (draft : Draft σ) :
    ms.foldl draftStep draft =
      ⟨(ms.map (·.field.name)).reverse ++ draft.seen, Written.fill draft.value ms⟩ := by
  induction ms generalizing draft with
  | nil => rfl
  | cons written ms ih =>
      rw [List.foldl_cons, ih, List.map_cons, List.reverse_cons, List.append_assoc]
      rfl

/-- A member whose field has not been seen is read into the draft. -/
private theorem readsMembers_fieldMember (fields : List (Field σ)) (depth : Nat) :
    ReadsMembers (fieldMember fields depth) Written.text
      (fun written => written.json.depth ≤ depth) draftStep fun draft left =>
        (∀ written ∈ left, fields.find? (·.answersTo written.key) = some written.field) ∧
        (∀ written ∈ left, Restores depth (written.field.value depth) written.json written.put) ∧
        (∀ written ∈ left, written.field.name ∉ draft.seen) ∧
        (left.map (·.field.name)).Nodup where
  next := by
    rintro draft written left ⟨hfound, hvalue, hseen, hnodup⟩
    -- The field is seen now; those of the members that are left are other ones.
    rw [List.map_cons, List.nodup_cons] at hnodup
    refine ⟨fun other hother => hfound other (List.mem_cons_of_mem _ hother),
      fun other hother => hvalue other (List.mem_cons_of_mem _ hother), ?_, hnodup.2⟩
    intro other hother hmem
    rcases List.mem_cons.mp hmem with heq | hmem
    · exact hnodup.1 (heq ▸ List.mem_map_of_mem hother)
    · exact hseen other (List.mem_cons_of_mem _ hother) hmem
  reads := by
    rintro draft written left ⟨hfound, hvalue, hseen, -⟩ after
    have hnot : ¬draft.seen.contains written.field.name = true := by
      simpa using hseen written List.mem_cons_self
    simp only [fieldMember, Written.text, hfound written List.mem_cons_self, if_neg hnot]
    exact ((hvalue written List.mem_cons_self after).memberValue written.key).map rfl

/-- A record is restored from a map of its fields, in any order. -/
theorem restores_record {fields : List (Field σ)} {ms : List (Written σ)}
    (hselects : Selects fields ms) (name : String) (blank : σ)
    (hvalue : ∀ inner, depth = inner + 1 → ∀ written ∈ ms,
      Restores inner (written.field.value inner) written.json written.put) :
    Restores depth (record name fields blank depth) (.object (ms.map Written.text))
      (Written.fill blank ms) := by
  intro after
  rw [bytes_object, List.cons_append]
  refine (reads_token rfl _).bind_readsIf (ReadsIf.placed ?_)
  refine ReadsIf.congr (ReadsIf.enter fun inner hinner => ?_) depth_object_le.symm
  subst hinner
  refine ReadsIf.closing ?_ (reads_endMap after)
  have hmembers := (readsMembers_fieldMember fields inner).members (s := ⟨[], blank⟩)
    ⟨hselects.found, hvalue inner rfl, fun _ _ => List.not_mem_nil, hselects.nodup⟩ after
  rw [foldl_draftStep, List.append_nil] at hmembers
  rw [List.forall_mem_map, Nat.add_sub_cancel]
  refine hmembers.map ?_
  have hnone : fields.find? (fun field => field.required &&
      !((ms.map (·.field.name)).reverse).contains field.name) = none := by
    rw [List.find?_eq_none]
    intro field hfield hmissing
    simp only [Bool.and_eq_true, Bool.not_eq_true', List.contains_eq_mem, List.mem_reverse,
      decide_eq_false_iff_not] at hmissing
    exact hmissing.2 (hselects.complete field hfield hmissing.1)
  simp only [hnone]

end SampleTypes.Json.Reader

import SampleTypes.Build
import SampleTypes.Proofs.Options.Codec

/-!
# Saved values

A saved value is a text of JSON, and what is read from it stops at the end of the value (`readSaved`). Every
value of every type that can be saved comes back from its text as it was, down to the order of fields at
every level, if the text has no more than 127 containers in one another, and is refused else
(`saved_values_read_back`). Nothing is asked of the values but that their shapes have distinct keys: kinds
may contradict what they stand for, and declarations may repeat one another.
-/

namespace SampleTypes

open Json.Reader

/-- Reads a value from the bytes of its saved form; what follows them is not looked at. -/
def readSaved {α : Type} (reader : Nat → Json.Reader α) (bytes : List UInt8) :
    Except BuildError α :=
  ((reader depthLimit).run bytes).mapError .options

/-- The saved form as a text, byte by byte. -/
def Json.saved (value : Json) : List UInt8 :=
  value.compact.toUTF8.toList

/-- The answer is that containers are nested too deep. -/
def IsTooDeep {α : Type} (answer : Except BuildError α) : Prop :=
  ∃ refusal, answer = .error (.options refusal) ∧ refusal.fault = .tooDeep

theorem Json.saved_eq_bytes (value : Json) : value.saved = value.bytes :=
  toUTF8_ofList value.write

section Saved

variable {α : Type} {reader : Nat → Json.Reader α} {json : Json} {a : α}

/-- A saved form within the limit is read. -/
theorem readSaved_eq_ok (h : Restores depthLimit (reader depthLimit) json a)
    (hdepth : json.depth ≤ depthLimit) : readSaved reader json.saved = .ok a := by
  have hreads := (h []).1 hdepth
  rw [List.append_nil, ← Json.saved_eq_bytes] at hreads
  rw [readSaved, hreads.run]
  rfl

/-- A saved form beyond the limit is refused. -/
theorem isTooDeep_readSaved (h : Restores depthLimit (reader depthLimit) json a)
    (hdepth : ¬json.depth ≤ depthLimit) : IsTooDeep (readSaved reader json.saved) := by
  have hrefuses := (h []).2 hdepth
  rw [List.append_nil, ← Json.saved_eq_bytes] at hrefuses
  obtain ⟨refusal, hrun, hfault⟩ := hrefuses.run
  refine ⟨refusal, ?_, hfault⟩
  rw [readSaved, hrun]
  rfl

/-- The value comes back from its saved form if this is not nested too deep, and is refused else. -/
def ReadBack (reader : Nat → Json.Reader α) (toJson : α → Json) (a : α) : Prop :=
  ((toJson a).depth ≤ depthLimit → readSaved reader (toJson a).saved = .ok a) ∧
    (depthLimit < (toJson a).depth → IsTooDeep (readSaved reader (toJson a).saved))

/-- What a reader restores at the full depth is read back from its saved form. -/
theorem Json.Reader.Restores.readBack {toJson : α → Json}
    (h : Restores depthLimit (reader depthLimit) (toJson a) a) : ReadBack reader toJson a :=
  ⟨readSaved_eq_ok h, fun hdeep => isTooDeep_readSaved h (Nat.not_le_of_lt hdeep)⟩

end Saved

/-- **Saved values come back**, whatever they are: types, shapes, declarations, stores and options. -/
theorem saved_values_read_back :
    (∀ type : FieldType, type.Proper → ReadBack FieldType.reader FieldType.toJson type) ∧
    (∀ shape : Shape, shape.Proper → ReadBack Shape.reader Shape.toJson shape) ∧
    (∀ declaration : Declaration, declaration.shape.Proper →
      ReadBack Declaration.reader Declaration.toJson declaration) ∧
    (∀ store : Store, store.Proper → ReadBack Store.reader Store.toJson store) ∧
    ∀ options : Options, options.Proper → ReadBack Options.reader Options.toJson options :=
  ⟨fun _ hp => (FieldType.restores depthLimit hp).readBack,
    fun _ hp => (Shape.restores depthLimit hp).readBack,
    fun _ hp => (Declaration.restores depthLimit hp).readBack,
    fun _ hp => (Store.restores depthLimit hp).readBack,
    fun _ hp => (Options.restores depthLimit hp).readBack⟩

/-- A shape whose kinds contradict its fields: a number with fields, and an object that is known to have
none. -/
def contradictory : Shape :=
  [("größe", ⟨.number, "\"", true, false, some [("", ⟨.boolean, "\n", false, true, none⟩)]⟩),
    ("b", ⟨.object, "string", false, false, some []⟩)]

/-- Options with two declarations of one name and one shape, and texts that are none of theirs. -/
def contradictoryOptions : Options where
  policy := { labels := { unknown := some "" } }
  seed := some ⟨[⟨"A", contradictory, ""⟩, ⟨"A", contradictory, "\\ \u0000"⟩]⟩
  delivery := { directory := some "größer/" }
  collision := .preserve

theorem saved_values_read_back_contradictory :
    contradictory.Proper ∧ contradictoryOptions.Proper ∧
      readSaved Shape.reader contradictory.toJson.saved = .ok contradictory ∧
      readSaved Options.reader contradictoryOptions.toJson.saved = .ok contradictoryOptions := by
  have hp : contradictory.Proper := by
    refine ⟨by decide, ?_⟩
    simp only [contradictory, List.forall_mem_cons, List.not_mem_nil, false_implies, implies_true,
      and_true]
    refine ⟨.node rfl (by decide) (List.forall_mem_singleton.mpr (.leaf rfl)), .node rfl ?_ ?_⟩
    · exact Entries.distinct_nil
    · exact fun _ h => absurd h List.not_mem_nil
  have hoptions : contradictoryOptions.Proper := by
    rintro store ⟨⟩
    simp only [Store.Proper, List.forall_mem_cons, List.not_mem_nil, false_implies, implies_true,
      and_true]
    exact ⟨hp, hp⟩
  obtain ⟨-, hshape, -, -, hread⟩ := saved_values_read_back
  exact ⟨hp, hoptions, (hshape _ hp).1 (by decide), (hread _ hoptions).1 (by decide)⟩

end SampleTypes

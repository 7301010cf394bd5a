import SampleTypes.Filter.Selection
import SampleTypes.Proofs.Outcomes

/-!
# Selection

What is selected by a filter, told apart from the order of work: the engine takes the text for a filter, and the
documents are those that its outputs are texts of, one for each output (`select_eq_ok`). The engine is any.
-/

namespace SampleTypes.Filter

/-- The output is a text of the document. -/
def Writes (output : Except String String) (document : Json) : Prop :=
  ∃ text, output = .ok text ∧ Json.read text = .ok document

/-- The text is a filter, and the documents are all that it puts out for the value, in order. -/
def Engine.Yields (engine : Engine) (text : String) (value : Json) (documents : List Json) : Prop :=
  ∃ loaded program, engine.load text = .ok loaded ∧ engine.compile loaded = .ok program ∧
    List.Forall₂ Writes (engine.run program value).toList documents

/-- An output becomes a document if it can be read, and then it is what the engine wrote. -/
theorem document_eq_ok {output : Except String String} {found : Json} :
    document output = .ok found ↔ Writes output found := by
  cases output with
  | error description => simp [document, Writes]
  | ok text => simp [document, Writes, mapError_eq_ok]

/-- Documents are found one after the other, behind those found so far. -/
theorem documents_eq_ok {outputs : Sequence (Except String String)} {reversed all : List Json} :
    documents reversed outputs = .ok all ↔
      ∃ found, List.Forall₂ Writes outputs.toList found ∧ all = reversed.reverse ++ found := by
  induction outputs generalizing reversed with
  | nil => simp [documents, eq_comm]
  | last output =>
      simp only [documents, except_bind_eq_ok, document_eq_ok, pure, Except.pure, Except.ok.injEq,
        Sequence.toList_last, List.forall₂_cons_left_iff, List.forall₂_nil_left_iff]
      constructor
      · rintro ⟨found, hwrites, rfl⟩
        exact ⟨[found], ⟨found, [], hwrites, rfl, rfl⟩, List.reverse_cons⟩
      · rintro ⟨-, ⟨found, -, hwrites, rfl, rfl⟩, rfl⟩
        exact ⟨found, hwrites, List.reverse_cons⟩
  | cons output rest ih =>
      rw [Sequence.toList_cons]
      cases houtput : document output with
      | error fault =>
          -- The selection ends here, and no list of documents begins with this output.
          have hnone : ∀ found, ¬Writes output found := by
            intro found hwrites
            rw [← document_eq_ok, houtput] at hwrites
            cases hwrites
          simp [documents, houtput, List.forall₂_cons_left_iff, hnone]
      | ok first =>
          simp only [documents, houtput, ih, List.reverse_cons, List.append_assoc, List.singleton_append]
          constructor
          · rintro ⟨found, hrest, rfl⟩
            exact ⟨first :: found, .cons (document_eq_ok.mp houtput) hrest, rfl⟩
          · rintro ⟨found, hall, rfl⟩
            obtain ⟨_, found, hwrites, hrest, rfl⟩ := List.forall₂_cons_left_iff.mp hall
            rw [document_eq_ok.mpr hwrites, Except.ok.injEq] at houtput
            subst houtput
            exact ⟨found, hrest, rfl⟩
  | later rest ih => exact ih ()

/-- A selection succeeds with the documents that the engine yields. -/
theorem select_eq_ok {engine : Engine} {text : String} {value : Json} {documents : List Json} :
    engine.select text value = .ok documents ↔ engine.Yields text value documents := by
  simp only [Engine.select, except_bind_eq_ok, mapError_eq_ok, documents_eq_ok, List.reverse_nil,
    List.nil_append, exists_eq_right', Engine.Yields]
  constructor
  · rintro ⟨loaded, hload, program, hcompile, hyields⟩
    exact ⟨loaded, program, hload, hcompile, hyields⟩
  · rintro ⟨loaded, program, hload, hcompile, hyields⟩
    exact ⟨loaded, hload, program, hcompile, hyields⟩

end SampleTypes.Filter

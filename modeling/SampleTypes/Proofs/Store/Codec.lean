import SampleTypes.Proofs.Shape.Codec
import SampleTypes.Proofs.Store.Lookup
import SampleTypes.Store.Codec

/-!
# Stores are restored

A saved store is read back declaration by declaration, with the names, the shapes in the order of their
fields and the texts that it had, as long as its saved form is not nested too deep (`Store.restores`).
-/

namespace SampleTypes

open Json.Reader

namespace Declaration

theorem unambiguous_fields : Unambiguous fields := by
  change (["name", "shape", "renderedText"] : List String).Nodup
  decide

/-- The values of a saved declaration's members, with what they do to the draft; `shape` is the saved form of
its shape. -/
def savedValues (shape : Json) (declaration : Declaration) :
    List (Json × (Declaration → Declaration)) := [
  (.string declaration.name, fun d => { d with name := declaration.name }),
  (shape, fun d => { d with shape := declaration.shape }),
  (.string declaration.text, fun d => { d with text := declaration.text })]

/-- A declaration is restored from any saved form in which its shape is. -/
theorem restores_of_shape {depth : Nat} {declaration : Declaration} {shape : Json}
    (h : ∀ inner, Restores inner (Shape.reader inner) shape declaration.shape) :
    Restores depth (reader depth) (.object [("name", .string declaration.name), ("shape", shape),
      ("renderedText", .string declaration.text)]) declaration := by
  refine restores_record (selects_along unambiguous_fields (declaration.savedValues shape) ?_)
    "struct InterfaceConfig" default fun inner hinner => ?_
  · exact fun _ h => absurd h List.not_mem_nil
  · have hname := (restores_text inner "a string" declaration.name).map
      fun name (d : Declaration) => { d with name := name }
    have hshape := (h inner).map fun shape (d : Declaration) => { d with shape := shape }
    have htext := (restores_text inner "a string" declaration.text).map
      fun text (d : Declaration) => { d with text := text }
    simp only [savedValues, fields, Written.along, List.zipWith_cons_cons,
      List.zipWith_nil_right, List.forall_mem_cons, List.not_mem_nil, false_implies, implies_true,
      and_true]
    exact ⟨hname, hshape, htext⟩

theorem restores (depth : Nat) {declaration : Declaration} (hp : declaration.shape.Proper) :
    Restores depth (reader depth) declaration.toJson declaration :=
  restores_of_shape fun inner => Shape.restores inner hp

end Declaration

namespace Store

def Proper (store : Store) : Prop :=
  ∀ d ∈ store.entries, d.shape.Proper

/-- A store is restored from any list of saved forms in which its declarations are. -/
theorem restores_of_declarations {depth : Nat} {store : Store}
    {membersOf : Declaration → List (String × Json)}
    (h : ∀ inner, ∀ d ∈ store.entries,
      Restores inner (Declaration.reader inner) (.object (membersOf d)) d) :
    Restores depth (reader depth) (.array (store.entries.map fun d => .object (membersOf d)))
      store := by
  have hlist : Restores depth (list depth Declaration.reader)
      (.array (store.entries.map fun d => .object (membersOf d))) store.entries := by
    refine restores_list (fun inner _ d hd => h inner d hd) fun d _ => ?_
    exact ⟨0x7B, ⟨rfl, by decide⟩, Json.opens_object _⟩
  exact hlist.map Store.mk

/-- A store is restored, if its saved form fits in the depth. -/
theorem restores (depth : Nat) {store : Store} (hp : store.Proper) :
    Restores depth (reader depth) store.toJson store :=
  restores_of_declarations fun inner d hd => Declaration.restores inner (hp d hd)

end Store

end SampleTypes

import SampleTypes.Shape.Basic

/-!
# Stores

A store holds declarations in the order in which they were made. It only grows, at its end. A shape is
looked up by sameness as rendered, a name by its first declaration.
-/

namespace SampleTypes

structure Declaration where
  name : String
  shape : Shape
  text : String

instance : Inhabited Declaration := ⟨⟨"", [], ""⟩⟩

structure Store where
  entries : List Declaration

namespace Store

def empty : Store := ⟨[]⟩

def length (store : Store) : Nat :=
  store.entries.length

def names (store : Store) : List String :=
  store.entries.map (·.name)

def get? (store : Store) (index : Nat) : Option Declaration :=
  store.entries[index]?

def byName? (store : Store) (name : String) : Option Declaration :=
  store.entries.find? fun declaration => declaration.name == name

/-- The index of the first declaration whose shape renders like the given one. -/
def position? (store : Store) (shape : Shape) : Option Nat :=
  store.entries.findIdx? fun declaration => declaration.shape.same shape

/-- The first declaration whose shape renders like the given one. -/
def find? (store : Store) (shape : Shape) : Option Declaration :=
  store.entries.find? fun declaration => declaration.shape.same shape

def push (store : Store) (declaration : Declaration) : Store :=
  ⟨store.entries ++ [declaration]⟩

/-- All texts with a blank line between them and a line feed at the end. -/
def render (store : Store) : String :=
  "\n\n".intercalate (store.entries.map (·.text)) ++ "\n"

/-- Stores are equal when their declarations are, one by one; the order of fields does not matter. -/
def equal (a b : Store) : Bool :=
  a.length == b.length &&
    (a.entries.zip b.entries).all fun (x, y) =>
      x.name == y.name && x.shape.equal y.shape && x.text == y.text

@[simp] theorem entries_push (store : Store) (declaration : Declaration) :
    (store.push declaration).entries = store.entries ++ [declaration] := rfl

@[simp] theorem names_push (store : Store) (declaration : Declaration) :
    (store.push declaration).names = store.names ++ [declaration.name] := by
  simp [names]

@[simp] theorem length_push (store : Store) (declaration : Declaration) :
    (store.push declaration).length = store.length + 1 := by
  simp [length]

end Store

end SampleTypes

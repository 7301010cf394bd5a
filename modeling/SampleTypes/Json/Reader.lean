import SampleTypes.Json.Refusal

/-!
# Reading byte by byte

A text is read as the bytes of its UTF-8 form, which need not be valid. A `Cursor` holds the bytes
still to come and the place reached; a `Reader` moves it and either yields a value or refuses, and in
both cases says where the cursor ended up.
-/

namespace SampleTypes.Json

/-- The bytes still to come, and the place reached. -/
structure Cursor where
  rest : List UInt8
  line : Nat
  column : Nat

namespace Cursor

def start (bytes : List UInt8) : Cursor :=
  ⟨bytes, 1, 0⟩

def position (c : Cursor) : Position :=
  ⟨c.line, c.column⟩

/-- The cursor after one more byte; at the end it stays. -/
def advance (c : Cursor) : Cursor :=
  match c.rest with
  | [] => c
  | b :: rest => if b == 0x0A then ⟨rest, c.line + 1, 0⟩ else ⟨rest, c.line, c.column + 1⟩

/-- The cursor after `n` more bytes. -/
def advanceBy : Nat → Cursor → Cursor
  | 0, c => c
  | n + 1, c => advanceBy n c.advance

/-- White space between the parts of a value. -/
def isBlank (b : UInt8) : Bool :=
  b == 0x20 || b == 0x0A || b == 0x09 || b == 0x0D

/-- Passes the white space in front of `rest`. -/
def passBlanks : (rest : List UInt8) → (line column : Nat) → Cursor
  | [], line, column => ⟨[], line, column⟩
  | b :: rest, line, column =>
    if b == 0x0A then passBlanks rest (line + 1) 0
    else if isBlank b then passBlanks rest line (column + 1)
    else ⟨b :: rest, line, column⟩

/-- The cursor at the next byte that is no white space. -/
def toToken (c : Cursor) : Cursor :=
  passBlanks c.rest c.line c.column

end Cursor

/-- A step of reading: a value or a refusal, and the cursor it leaves. -/
abbrev Reader := EStateM Refusal Cursor

namespace Reader

variable {α : Type}

def refuse (fault : Fault) : Reader α := fun c =>
  .error ⟨fault, some c.position, []⟩ c

/-- Refuses at the next byte, which counts as read. -/
def refuseNext (fault : Fault) : Reader α := fun c =>
  .error ⟨fault, some c.advance.position, []⟩ c

/-- Refuses the container being read; the place is still to be found. -/
def refuseLater (fault : Fault) : Reader α := fun c =>
  .error ⟨fault, none, []⟩ c

def peek : Reader (Option UInt8) := fun c =>
  .ok c.rest.head? c

def take : Reader (Option UInt8) := fun c =>
  .ok c.rest.head? c.advance

def pass : Reader Unit := fun c =>
  .ok () c.advance

/-- The next byte that is no white space, which stays. -/
def token : Reader (Option UInt8) := fun c =>
  let c := c.toToken
  .ok c.rest.head? c

/-- A bound on the steps of a loop: as many as the list is long, whatever bytes it holds. -/
abbrev Bound := List UInt8

/-- Every step of a reader's loop takes a byte, so the bytes still to come bound it. There are two more
steps, for the end of the loop and the end of the text. -/
def withBound (reader : Bound → Reader α) : Reader α := fun c =>
  reader (0 :: 0 :: c.rest) c

/-- Reads a part of the value: a refusal there belongs to that part. -/
def within (segment : Segment) (reader : Reader α) : Reader α := fun c =>
  match reader c with
  | .ok a c => .ok a c
  | .error refusal c => .error { refusal with path := segment :: refusal.path } c

/-- Gives a refusal without a place the place where the reader stopped. -/
def placed (reader : Reader α) : Reader α := fun c =>
  match reader c with
  | .ok a c => .ok a c
  | .error refusal c =>
    .error { refusal with place := some (refusal.place.getD c.position) } c

/-- Reads a body and then its ending. A refused body is still followed by an attempt at the ending,
which moves the cursor and is otherwise ignored. -/
def closing (body : Reader α) (ending : Reader Unit) : Reader α := fun c =>
  match body c with
  | .ok a c =>
    match ending c with
    | .ok _ c => .ok a c
    | .error refusal c => .error refusal c
  | .error refusal c =>
    match ending c with
    | .ok _ c => .error refusal c
    | .error _ c => .error refusal c

/-- What a reader makes of the beginning of a text. -/
def run (reader : Reader α) (bytes : List UInt8) : Except Refusal α :=
  match reader (.start bytes) with
  | .ok a _ => .ok a
  | .error refusal _ => .error refusal

end Reader

end SampleTypes.Json

import SampleTypes.Filter.Sequence
import SampleTypes.Filter.Value

/-!
# Outputs of filters

The outputs of a filter are a sequence in which failures have a place among the values. What is done with
every value leaves failures where they are (`Outputs` is a monad); what needs all values stops at the first
failure.
-/

namespace SampleTypes.Filter

/-- Why there is no value. -/
inductive Failure where
  | error (value : Value)
  /-- The outputs of a label come to their end. -/
  | leave (label : Nat)

/-- Outputs, among them failures. -/
abbrev Outputs (α : Type) := ExceptT Failure Sequence α

namespace Outputs

variable {α β γ : Type}

def ofSequence (outputs : Sequence (Except Failure α)) : Outputs α :=
  ExceptT.mk outputs

def ofOutput (output : Except Failure α) : Outputs α :=
  ofSequence (.last output)

def none : Outputs α :=
  ofSequence .nil

/-- The result of a calculation as the only output. -/
def ofResult (result : Except Value α) : Outputs α :=
  ofOutput (result.mapError .error)

def ofList (values : List α) : Outputs α :=
  ofSequence ((Sequence.ofList values).map .ok)

def fail (description : String) : Outputs α :=
  ofResult (Value.fail description)

def later (outputs : Unit → Outputs α) : Outputs α :=
  ofSequence (.later outputs)

/-- Outputs that are looked for at once, but later at every so many levels of depth. -/
@[inline] def paced (depth : Nat) (outputs : Unit → Outputs α) : Outputs α :=
  if depth % 128 == 0 then later outputs else outputs ()

def append (outputs : Outputs α) (others : Unit → Outputs α) : Outputs α :=
  ofSequence (Sequence.append outputs others)

/-- All values in one list, or the first failure. -/
def all (outputs : Outputs α) : Outputs (List α) :=
  let step (reversed : List α) : Except Failure α → Except (Except Failure (List α)) (List α)
    | .ok value => .ok (value :: reversed)
    | .error failure => .error (.error failure)
  ofSequence (outputs.run.fold step (fun reversed => .ok reversed.reverse) [])

def first? (outputs : Outputs α) : Outputs (Option α) :=
  ofSequence (outputs.run.first?.map fun
    | some output => some <$> output
    | Option.none => .ok Option.none)

/-- The last value, if there is any, or the first failure. -/
def last? (outputs : Outputs α) : Outputs (Option α) :=
  let step (_ : Option α) : Except Failure α → Except (Except Failure (Option α)) (Option α)
    | .ok value => .ok (some value)
    | .error failure => .error (.error failure)
  ofSequence (outputs.run.fold step .ok Option.none)

def take (n : Nat) (outputs : Outputs α) : Outputs α :=
  ofSequence (outputs.run.take n)

/-- Everything on the left with everything on the right, the left side changing slowest. Failures are
joined as well, so they need a partner; of two, the left one counts. -/
def pairs (left : Outputs α) (right : Unit → Outputs β) (join : α → β → Except Value γ) : Outputs γ :=
  ofSequence (left.run.flatMap fun a => (right ()).run.map fun b => do
    (join (← a) (← b)).mapError .error)

/-- The outputs up to the first error, and then those of its handler. -/
def rescue (handler : Value → Outputs α) : Sequence (Except Failure α) → Outputs α
  | .nil => none
  | .last (.error (.error value)) => handler value
  | .last output => ofOutput output
  | .cons (.error (.error value)) _ => handler value
  | .cons output rest => ofSequence (.cons output fun _ => rescue handler (rest ()))
  | .later rest => later fun _ => rescue handler (rest ())

/-- The outputs up to where the label is left. -/
def upTo (label : Nat) : Sequence (Except Failure α) → Outputs α
  | .nil => none
  | .last output => if leaves output then none else ofOutput output
  | .cons output rest =>
    if leaves output then none else ofSequence (.cons output fun _ => upTo label (rest ()))
  | .later rest => later fun _ => upTo label (rest ())
where
  /-- The label is left here. -/
  leaves : Except Failure α → Bool
  | .error (.leave other) => other == label
  | _ => false

/-! ## Loops over outputs -/

/-- Takes a value through one step for every item. -/
def inTurn (step : α → β → Outputs β) : Sequence (Except Failure α) → β → Outputs β
  | .nil, value => pure value
  | .last item, value => do step (← ofOutput item) value
  | .cons item rest, value => do
    let value ← step (← ofOutput item) value
    later fun _ => inTurn step (rest ()) value
  | .later rest, value => later fun _ => inTurn step (rest ()) value

/-- Takes a value through one step for every item, and puts out a view of what every step
makes of it. -/
def scan (step : α → β → Outputs β) (view : α → β → Outputs γ) :
    Sequence (Except Failure α) → β → Outputs γ
  | .nil, _ => none
  | .last item, value => do
    let item ← ofOutput item
    let value ← step item value
    view item value
  | .cons item rest, value => do
    let item ← ofOutput item
    let value ← step item value
    append (view item value) fun _ => scan step view (rest ()) value
  | .later rest, value => later fun _ => scan step view (rest ()) value

/-- Takes a value through one step for every item, each step made inside the one before it, and through
a change inside the last one. -/
def inside (step : α → (β → Outputs β) → β → Outputs β) (change : β → Outputs β) :
    Sequence (Except Failure α) → β → Outputs β
  | .nil, value => change value
  | .last item, value => do step (← ofOutput item) change value
  | .cons item rest, value => do
    step (← ofOutput item) (fun value => later fun _ => inside step change (rest ()) value) value
  | .later rest, value => later fun _ => inside step change (rest ()) value

end Outputs

end SampleTypes.Filter

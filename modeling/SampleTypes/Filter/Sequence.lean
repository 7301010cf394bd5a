/-!
# Sequences found step by step

A filter may have many outputs, or no end of them, of which only the first few are asked for. What comes
after an element of a `Sequence` is therefore a computation, and an element may be known to be the last one.
A computation may also pause before it finds anything (`later`): long computations then never nest deeply,
because whoever asks for the next element resumes them after every pause. Neither the order of work nor the
pauses show in `toList`.
-/

namespace SampleTypes.Filter

/-- Elements that are found one after the other, each only when it is asked for. -/
inductive Sequence (α : Type) where
  | nil
  /-- An element that nothing follows. -/
  | last (element : α)
  | cons (element : α) (rest : Unit → Sequence α)
  /-- The elements of a computation that has yet to go on. -/
  | later (rest : Unit → Sequence α)

namespace Sequence

variable {α β σ τ : Type}

def toList : Sequence α → List α
  | nil => []
  | last a => [a]
  | cons a rest => a :: (rest ()).toList
  | later rest => (rest ()).toList

@[simp] theorem toList_nil : (nil : Sequence α).toList = [] := rfl

@[simp] theorem toList_last (a : α) : (last a).toList = [a] := rfl

@[simp] theorem toList_cons (a : α) (rest : Unit → Sequence α) :
    (cons a rest).toList = a :: (rest ()).toList := rfl

@[simp] theorem toList_later (rest : Unit → Sequence α) :
    (later rest).toList = (rest ()).toList := rfl

def ofList : List α → Sequence α
  | [] => nil
  | [a] => last a
  | a :: as => cons a fun _ => ofList as

def append : Sequence α → (Unit → Sequence α) → Sequence α
  | nil, more => more ()
  | last a, more => cons a more
  | cons a rest, more => cons a fun _ => append (rest ()) more
  | later rest, more => later fun _ => append (rest ()) more

def map (f : α → β) : Sequence α → Sequence β
  | nil => nil
  | last a => last (f a)
  | cons a rest => cons (f a) fun _ => map f (rest ())
  | later rest => later fun _ => map f (rest ())

/-- Every element replaced by the elements of a sequence. Those of the last element are not appended to
but take its place, so a loop of single elements does not grow. -/
def flatMap (as : Sequence α) (f : α → Sequence β) : Sequence β :=
  match as with
  | nil => nil
  | last a => f a
  | cons a rest => (f a).append fun _ => later fun _ => flatMap (rest ()) f
  | later rest => later fun _ => flatMap (rest ()) f

instance : Monad Sequence where
  pure := last
  bind := flatMap

def filter (p : α → Bool) : Sequence α → Sequence α
  | nil => nil
  | last a => if p a then last a else nil
  | cons a rest =>
    if p a then cons a fun _ => filter p (rest ()) else later fun _ => filter p (rest ())
  | later rest => later fun _ => filter p (rest ())

/-- The first so many elements; what follows them is not looked for. -/
def take : Nat → Sequence α → Sequence α
  | 0, _ => nil
  | _ + 1, nil => nil
  | _ + 1, last a => last a
  | 1, cons a _ => last a
  | n + 1, cons a rest => cons a fun _ => take n (rest ())
  | n + 1, later rest => later fun _ => take (n + 1) (rest ())

/-- The elements of a sequence, or those of another one if it has none. -/
def orElse : Sequence α → (Unit → Sequence α) → Sequence α
  | nil, other => other ()
  | last a, _ => last a
  | cons a rest, _ => cons a rest
  | later rest, other => later fun _ => orElse (rest ()) other

/-- Goes through the elements with a state, until a step ends in a result or `finish` makes one of the
last state. The result is the only element. -/
def fold (step : σ → α → Except τ σ) (finish : σ → τ) : σ → Sequence α → Sequence τ
  | state, nil => last (finish state)
  | state, last a =>
    match step state a with
    | .ok state => last (finish state)
    | .error result => last result
  | state, cons a rest =>
    match step state a with
    | .ok state => fold step finish state (rest ())
    | .error result => last result
  | state, later rest => later fun _ => fold step finish state (rest ())

def first? : Sequence α → Sequence (Option α) :=
  fold (fun _ a => .error (some a)) (fun _ => none) ()

def any (p : α → Bool) : Sequence α → Sequence Bool :=
  fold (fun _ a => if p a then .error true else .ok ()) (fun _ => false) ()

end Sequence

end SampleTypes.Filter

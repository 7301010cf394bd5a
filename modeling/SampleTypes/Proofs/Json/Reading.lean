import SampleTypes.Json.Record

/-!
# What readers make of bytes

A reader's answer depends on the bytes in front of it; the line and the column only go into places. Two
relations leave them out: a reader reads a value from some bytes and leaves others (`Reads`), or refuses
the bytes because of a fault (`Refuses`). `ReadsIf` says both at once, for a reader that refuses what is
nested too deep.

The rules below follow the ways in which readers are put together.
-/

namespace SampleTypes.Json.Reader

variable {α β : Type} {reader : Reader α} {before middle after : List UInt8} {a : α} {fault : Fault}

/-- The reader takes a value from the bytes and leaves others, wherever it stands. -/
def Reads (reader : Reader α) (before : List UInt8) (a : α) (after : List UInt8) : Prop :=
  ∀ line column, ∃ line' column',
    reader ⟨before, line, column⟩ = .ok a ⟨after, line', column'⟩

/-- The reader refuses the bytes, wherever it stands. -/
def Refuses (reader : Reader α) (before : List UInt8) (fault : Fault) : Prop :=
  ∀ line column, ∃ refusal c,
    reader ⟨before, line, column⟩ = .error refusal c ∧ refusal.fault = fault

/-- The reader takes a value if the condition holds, and else it refuses the bytes as nested too
deep. -/
def ReadsIf (condition : Prop) (reader : Reader α) (before : List UInt8) (a : α)
    (after : List UInt8) : Prop :=
  (condition → Reads reader before a after) ∧ (¬condition → Refuses reader before .tooDeep)

theorem Reads.readsIf {condition : Prop} (h : Reads reader before a after) (hc : condition) :
    ReadsIf condition reader before a after :=
  ⟨fun _ => h, fun hnot => absurd hc hnot⟩

theorem Refuses.readsIf {condition : Prop} (h : Refuses reader before .tooDeep)
    (hc : ¬condition) : ReadsIf condition reader before a after :=
  ⟨fun holds => absurd holds hc, fun _ => h⟩

theorem ReadsIf.congr {condition condition' : Prop} (h : ReadsIf condition reader before a after)
    (hiff : condition ↔ condition') : ReadsIf condition' reader before a after :=
  ⟨fun hc => h.1 (hiff.mpr hc), fun hc => h.2 (mt hiff.mp hc)⟩

/-! ## One step after another -/

theorem reads_pure (a : α) (before : List UInt8) : Reads (pure a) before a before :=
  fun line column => ⟨line, column, rfl⟩

/-- One reader goes on from what the other has left. -/
theorem Reads.bind {next : α → Reader β} {b : β} (h : Reads reader before a middle)
    (hnext : Reads (next a) middle b after) : Reads (reader >>= next) before b after := by
  intro line column
  obtain ⟨line₁, column₁, hfirst⟩ := h line column
  obtain ⟨line₂, column₂, hsecond⟩ := hnext line₁ column₁
  refine ⟨line₂, column₂, ?_⟩
  change EStateM.bind reader next _ = _
  rw [EStateM.bind, hfirst]
  exact hsecond

theorem Refuses.bind {next : α → Reader β} (h : Refuses reader before fault) :
    Refuses (reader >>= next) before fault := by
  intro line column
  obtain ⟨refusal, c, hfirst, hfault⟩ := h line column
  refine ⟨refusal, c, ?_, hfault⟩
  change EStateM.bind reader next _ = _
  rw [EStateM.bind, hfirst]

theorem Reads.bind_refuses {next : α → Reader β} (h : Reads reader before a middle)
    (hnext : Refuses (next a) middle fault) : Refuses (reader >>= next) before fault := by
  intro line column
  obtain ⟨line₁, column₁, hfirst⟩ := h line column
  obtain ⟨refusal, c, hsecond, hfault⟩ := hnext line₁ column₁
  refine ⟨refusal, c, ?_, hfault⟩
  change EStateM.bind reader next _ = _
  rw [EStateM.bind, hfirst]
  exact hsecond

theorem Reads.bind_readsIf {condition : Prop} {next : α → Reader β} {b : β}
    (h : Reads reader before a middle) (hnext : ReadsIf condition (next a) middle b after) :
    ReadsIf condition (reader >>= next) before b after :=
  ⟨fun hc => h.bind (hnext.1 hc), fun hc => h.bind_refuses (hnext.2 hc)⟩

/-- Two readers in a row read if both conditions hold; otherwise one of them refuses. -/
theorem ReadsIf.bind {condition condition' : Prop} {next : α → Reader β} {b : β}
    (h : ReadsIf condition reader before a middle)
    (hnext : ReadsIf condition' (next a) middle b after) :
    ReadsIf (condition ∧ condition') (reader >>= next) before b after := by
  constructor
  · rintro ⟨hc, hc'⟩
    exact (h.1 hc).bind (hnext.1 hc')
  · intro hnot
    by_cases hc : condition
    · exact (h.1 hc).bind_refuses (hnext.2 fun hc' => hnot ⟨hc, hc'⟩)
    · exact (h.2 hc).bind

/-- What follows in the reader does nothing but make another value. -/
theorem ReadsIf.map {condition : Prop} {b : β} {next : α → Reader β}
    (h : ReadsIf condition reader before a after) (hnext : next a = pure b) :
    ReadsIf condition (reader >>= next) before b after := by
  have hpure : ReadsIf True (next a) after b after := by
    rw [hnext]
    exact (reads_pure b after).readsIf trivial
  exact (h.bind hpure).congr (and_iff_left trivial)

theorem ReadsIf.functor_map {condition : Prop} (f : α → β)
    (h : ReadsIf condition reader before a after) :
    ReadsIf condition (f <$> reader) before (f a) after :=
  ReadsIf.map (b := f a) h rfl

theorem Reads.functor_map (f : α → β) (h : Reads reader before a after) :
    Reads (f <$> reader) before (f a) after :=
  h.bind (reads_pure (f a) after)

/-! ## Single bytes -/

/-- A value found without a look at the place, and a cursor whose bytes are known. -/
theorem reads_of_rest {move : Cursor → Cursor}
    (h : ∀ line column, reader ⟨before, line, column⟩ = .ok a (move ⟨before, line, column⟩))
    (hrest : ∀ line column, (move ⟨before, line, column⟩).rest = after) :
    Reads reader before a after := by
  intro line column
  have hmoved := hrest line column
  refine ⟨(move ⟨before, line, column⟩).line, (move ⟨before, line, column⟩).column, ?_⟩
  rw [h, ← hmoved]

theorem rest_advance (c : Cursor) : c.advance.rest = c.rest.tail := by
  rw [Cursor.advance]
  split
  · next hrest => rw [hrest, List.tail_nil]
  · next b rest hrest =>
      rw [hrest]
      split <;> rfl

theorem rest_advanceBy (n : Nat) (c : Cursor) : (c.advanceBy n).rest = c.rest.drop n := by
  induction n generalizing c with
  | zero => rfl
  | succ n ih => rw [Cursor.advanceBy, ih, rest_advance, List.drop_tail]

theorem reads_pass (b : UInt8) (rest : List UInt8) : Reads pass (b :: rest) () rest :=
  reads_of_rest (fun _ _ => rfl) fun _ _ => rest_advance _

theorem reads_take (b : UInt8) (rest : List UInt8) : Reads take (b :: rest) (some b) rest :=
  reads_of_rest (fun _ _ => rfl) fun _ _ => rest_advance _

theorem reads_peek (before : List UInt8) : Reads peek before before.head? before :=
  fun line column => ⟨line, column, rfl⟩

/-- A byte that is no white space is found where it stands. -/
theorem reads_token {b : UInt8} (hb : Cursor.isBlank b = false) (rest : List UInt8) :
    Reads token (b :: rest) (some b) (b :: rest) := by
  intro line column
  have hline : (b == 0x0A) = false := by
    simp only [Cursor.isBlank, Bool.or_eq_false_iff] at hb
    exact hb.1.1.2
  have hstay : Cursor.toToken ⟨b :: rest, line, column⟩ = ⟨b :: rest, line, column⟩ := by
    simp only [Cursor.toToken, Cursor.passBlanks, hline, hb, Bool.false_eq_true, if_false]
  refine ⟨line, column, ?_⟩
  rw [token, hstay]
  rfl

theorem refuses_refuseNext (fault : Fault) (before : List UInt8) :
    Refuses (refuseNext fault : Reader α) before fault :=
  fun _ _ => ⟨_, _, rfl, rfl⟩

/-! ## Around a reader -/

/-- The segment is told in a refusal only. -/
theorem ReadsIf.within {condition : Prop} (h : ReadsIf condition reader before a after)
    (segment : Segment) : ReadsIf condition (within segment reader) before a after := by
  constructor
  · intro hc line column
    obtain ⟨line', column', heq⟩ := h.1 hc line column
    exact ⟨line', column', by rw [Reader.within, heq]⟩
  · intro hc line column
    obtain ⟨refusal, c, heq, hfault⟩ := h.2 hc line column
    exact ⟨{ refusal with path := segment :: refusal.path }, c, by rw [Reader.within, heq], hfault⟩

theorem Reads.within (h : Reads reader before a after) (segment : Segment) :
    Reads (within segment reader) before a after :=
  ((h.readsIf trivial).within segment).1 trivial

theorem ReadsIf.placed {condition : Prop} (h : ReadsIf condition reader before a after) :
    ReadsIf condition (placed reader) before a after := by
  constructor
  · intro hc line column
    obtain ⟨line', column', heq⟩ := h.1 hc line column
    exact ⟨line', column', by rw [Reader.placed, heq]⟩
  · intro hc line column
    obtain ⟨refusal, c, heq, hfault⟩ := h.2 hc line column
    exact ⟨{ refusal with place := some (refusal.place.getD c.position) }, c,
      by rw [Reader.placed, heq], hfault⟩

/-- A body that is refused stays refused, however its ending is. -/
theorem ReadsIf.closing {condition : Prop} {ending : Reader Unit}
    (h : ReadsIf condition reader before a middle) (hending : Reads ending middle () after) :
    ReadsIf condition (closing reader ending) before a after := by
  constructor
  · intro hc line column
    obtain ⟨line₁, column₁, hbody⟩ := h.1 hc line column
    obtain ⟨line₂, column₂, hend⟩ := hending line₁ column₁
    refine ⟨line₂, column₂, ?_⟩
    rw [Reader.closing, hbody]
    simp only [hend]
  · intro hc line column
    obtain ⟨refusal, c, hbody, hfault⟩ := h.2 hc line column
    rw [Reader.closing, hbody]
    simp only
    split
    · exact ⟨_, _, rfl, hfault⟩
    · exact ⟨_, _, rfl, hfault⟩

theorem Reads.withBound {loop : Bound → Reader α}
    (h : Reads (loop (0 :: 0 :: before)) before a after) : Reads (withBound loop) before a after :=
  h

theorem ReadsIf.withBound {condition : Prop} {loop : Bound → Reader α}
    (h : ReadsIf condition (loop (0 :: 0 :: before)) before a after) :
    ReadsIf condition (withBound loop) before a after :=
  h

/-- A container is entered if the depth allows it, and its bracket is passed. -/
theorem ReadsIf.enter {condition : Prop} {depth : Nat} {body : Nat → Reader α} {bracket : UInt8}
    (h : ∀ inner, depth = inner + 1 → ReadsIf condition (body inner) before a after) :
    ReadsIf (0 < depth ∧ condition) (enter depth body) (bracket :: before) a after := by
  cases depth with
  | zero =>
      refine (refuses_refuseNext _ _).readsIf ?_
      exact fun hc => absurd hc.1 (Nat.lt_irrefl 0)
  | succ inner =>
      have hbody : ReadsIf condition (pass >>= fun _ => body inner) (bracket :: before) a after :=
        (reads_pass bracket before).bind_readsIf (h inner rfl)
      exact hbody.congr ⟨fun hc => ⟨Nat.succ_pos inner, hc⟩, And.right⟩

/-- What a reader that reads a whole text makes of it. -/
theorem Reads.run (h : Reads reader before a after) : reader.run before = .ok a := by
  obtain ⟨line, column, heq⟩ := h 1 0
  rw [Reader.run, Cursor.start, heq]

/-- What a reader refuses is refused by its run, for the same fault. -/
theorem Refuses.run (h : Refuses reader before fault) :
    ∃ refusal, reader.run before = .error refusal ∧ refusal.fault = fault := by
  obtain ⟨refusal, c, heq, hfault⟩ := h 1 0
  exact ⟨refusal, by rw [Reader.run, Cursor.start, heq], hfault⟩

end SampleTypes.Json.Reader

import SampleTypes.Proofs.Json.Steady

/-!
# Readers that look one byte ahead

A reader echoes if what it takes from a text it takes from every text that begins with the same bytes
(`Echoes`). Most readers have to look at the byte behind what they take, as that may go on with what they are
reading, and then this byte has to be the same. Those that end with a closing bracket do not (`Closes`): to
them it does not matter what follows, nor whether anything does.

A loop is bounded by the bytes still to come, and these differ between the texts. As in steady loops every
turn has to take a byte, so that neither bound is reached (`echoes_loop`).
-/

namespace SampleTypes.Json.Reader

variable {α β : Type} {looks : Prop} {n m : Nat} {c c' : Cursor} {reader other : Reader α} {a : α}

/-- The reader takes these bytes and yields the value, whatever follows them. If it looks ahead, what follows
begins with the next byte. Only texts of less than `m` bytes are spoken of. -/
def Takes (looks : Prop) (m : Nat) (reader : Reader α) (used : List UInt8) (next : Option UInt8)
    (a : α) : Prop :=
  ∀ c rest, c.rest = used ++ rest → c.rest.length < m → (looks → rest.head? = next) →
    ∃ c', reader c = .ok a c' ∧ c'.rest = rest

/-- What one reader takes from a text of less than `n` bytes, the other takes too. -/
def EchoesBelow (looks : Prop) (n m : Nat) (reader other : Reader α) : Prop :=
  ∀ c a c', c.rest.length < n → reader c = .ok a c' →
    ∃ used, c.rest = used ++ c'.rest ∧ Takes looks m other used c'.rest.head? a

/-- What the reader takes from a text, it takes from other texts too. -/
def Echoes (looks : Prop) (reader : Reader α) : Prop :=
  ∀ n m, EchoesBelow looks n m reader reader

/-- The reader looks at most one byte ahead. -/
abbrev Peeks (reader : Reader α) : Prop :=
  Echoes True reader

/-- The reader takes a byte whenever it reads something. -/
def Advances (reader : Reader α) : Prop :=
  ∀ c a c', reader c = .ok a c' → c'.rest.length < c.rest.length

/-- The reader looks at most one byte ahead, and takes a byte whenever it reads something. -/
def Strides (reader : Reader α) : Prop :=
  Peeks reader ∧ Advances reader

/-- The reader looks at most one byte ahead, and takes a byte if there is one. -/
def Proceeds (reader : Reader α) : Prop :=
  Peeks reader ∧ ∀ c a c', c.rest ≠ [] → reader c = .ok a c' → c'.rest.length < c.rest.length

/-- The reader takes something, and does not look behind it. -/
def Closes (reader : Reader α) : Prop :=
  Echoes False reader ∧ Advances reader

/-- Both readers read the same, and may differ in what they refuse. -/
def Alike (reader other : Reader α) : Prop :=
  ∀ c a c', reader c = .ok a c' ↔ other c = .ok a c'

/-! ## What echoes -/

/-- To echo is to read the same from every text that begins with what was taken, and goes on with the
same byte if that is looked at. -/
theorem echoes_iff : Echoes looks reader ↔ ∀ c a c', reader c = .ok a c' →
    ∃ used, c.rest = used ++ c'.rest ∧ ∀ d rest, d.rest = used ++ rest →
      (looks → rest.head? = c'.rest.head?) → ∃ d', reader d = .ok a d' ∧ d'.rest = rest := by
  constructor
  · intro h c a c' hok
    obtain ⟨used, hused, -⟩ := h (c.rest.length + 1) 0 c a c' (Nat.lt_succ_self _) hok
    refine ⟨used, hused, fun d rest hd hlooks => ?_⟩
    obtain ⟨used', hused', htakes⟩ :=
      h (c.rest.length + 1) (d.rest.length + 1) c a c' (Nat.lt_succ_self _) hok
    have hsame : used' = used := List.append_cancel_right (hused'.symm.trans hused)
    exact htakes d rest (by rw [hd, hsame]) (Nat.lt_succ_self _) hlooks
  · intro h n m c a c' _ hok
    obtain ⟨used, hused, htakes⟩ := h c a c' hok
    exact ⟨used, hused, fun d rest hd _ hlooks => htakes d rest hd hlooks⟩

/-- A reader that does not look ahead is one that may. -/
theorem Echoes.peeks (h : Echoes looks reader) : Peeks reader := by
  intro n m c a c' hlt hok
  obtain ⟨used, hused, htakes⟩ := h n m c a c' hlt hok
  exact ⟨used, hused, fun d rest hd hm hnext => htakes d rest hd hm fun _ => hnext trivial⟩

theorem Echoes.length_le (h : Echoes looks reader) (hok : reader c = .ok a c') :
    c'.rest.length ≤ c.rest.length := by
  obtain ⟨used, hused, -⟩ := h _ 0 c a c' (Nat.lt_succ_self _) hok
  rw [hused, List.length_append]
  exact Nat.le_add_left _ _

theorem Closes.peeks (h : Closes reader) : Peeks reader :=
  h.1.peeks

theorem Closes.strides (h : Closes reader) : Strides reader :=
  ⟨h.peeks, h.2⟩

theorem Strides.proceeds (h : Strides reader) : Proceeds reader :=
  ⟨h.1, fun c a c' _ => h.2 c a c'⟩

theorem Alike.echoes (h : Alike reader other) (hother : Echoes looks other) : Echoes looks reader := by
  intro n m c a c' hlt hok
  obtain ⟨used, hused, htakes⟩ := hother n m c a c' hlt ((h c a c').mp hok)
  refine ⟨used, hused, fun d rest hd hm hlooks => ?_⟩
  obtain ⟨d', hread, hrest⟩ := htakes d rest hd hm hlooks
  exact ⟨d', (h d a d').mpr hread, hrest⟩

theorem Alike.advances (h : Alike reader other) (hother : Advances other) : Advances reader :=
  fun c a c' hok => hother c a c' ((h c a c').mp hok)

theorem Alike.closes (h : Alike reader other) (hother : Closes other) : Closes reader :=
  ⟨h.echoes hother.1, h.advances hother.2⟩

theorem Fails.echoesBelow (h : Fails reader) : EchoesBelow looks n m reader other :=
  fun c a c' _ hok => absurd hok (h c a c')

theorem Fails.echoes (h : Fails reader) : Echoes looks reader :=
  fun _ _ => h.echoesBelow

theorem Fails.closes (h : Fails reader) : Closes reader :=
  ⟨h.echoes, fun c a c' hok => absurd hok (h c a c')⟩

theorem Fails.proceeds (h : Fails reader) : Proceeds reader :=
  h.closes.strides.proceeds

theorem fails_refuseLater (fault : Fault) : Fails (refuseLater fault : Reader α) := by
  intro c a c' h
  cases h

theorem fails_bind {next : α → Reader β} (h : ∀ a, Fails (next a)) : Fails (reader >>= next) := by
  intro c a c' hok
  obtain ⟨x, middle, -, hrest⟩ := bind_eq_ok.mp hok
  exact h x middle a c' hrest

theorem Fails.bind {next : α → Reader β} (h : Fails reader) : Fails (reader >>= next) := by
  intro c a c' hok
  obtain ⟨x, middle, hfirst, -⟩ := bind_eq_ok.mp hok
  exact h c x middle hfirst

/-- A reader that leaves the text alone. -/
theorem echoes_of_rest_eq (h : ∀ c a c', reader c = .ok a c' → c'.rest = c.rest ∧
    ∀ d, ∃ d', reader d = .ok a d' ∧ d'.rest = d.rest) : Echoes looks reader := by
  refine echoes_iff.mpr fun c a c' hok => ?_
  obtain ⟨hrest, hall⟩ := h c a c' hok
  refine ⟨[], hrest.symm, fun d rest hd _ => ?_⟩
  obtain ⟨d', hread, hrest'⟩ := hall d
  exact ⟨d', hread, hrest'.trans hd⟩

theorem echoes_pure (a : α) : Echoes looks (pure a : Reader α) := by
  refine echoes_of_rest_eq fun c a' c' hok => ?_
  cases hok
  exact ⟨rfl, fun d => ⟨d, rfl, rfl⟩⟩

/-! ## One step after another -/

/-- Two readers take their bytes one after the other. What the second takes, or what follows it if it takes
nothing, has to suit the first. -/
theorem Takes.bind {looks' : Prop} {m' : Nat} {next : α → Reader β} {b : β} {used used' : List UInt8}
    {seen seen' : Option UInt8} (h : Takes looks m reader used seen a)
    (hnext : Takes looks' m' (next a) used' seen' b)
    (hlength : ∀ c c', c.rest.length < m → reader c = .ok a c' → c'.rest.length < m')
    (hseen : ∀ rest, (looks' → rest.head? = seen') → looks → (used' ++ rest).head? = seen) :
    Takes looks' m (reader >>= next) (used ++ used') seen' b := by
  intro c rest hc hm hlooks
  rw [List.append_assoc] at hc
  obtain ⟨middle, hfirst, hmiddle⟩ := h c (used' ++ rest) hc hm (hseen rest hlooks)
  obtain ⟨c', hlast, hrest⟩ := hnext middle rest hmiddle (hlength c middle hm hfirst) hlooks
  exact ⟨c', bind_eq_ok.mpr ⟨a, middle, hfirst, hlast⟩, hrest⟩

/-- After a reader that takes at least `k` bytes there are so many bytes less to come, in both texts. -/
theorem Echoes.bind_after (k : Nat) {next follow : α → Reader β} (h : Echoes looks reader)
    (hk : ∀ c a c', reader c = .ok a c' → c'.rest.length + k ≤ c.rest.length)
    (hnext : ∀ a, EchoesBelow looks n m (next a) (follow a)) :
    EchoesBelow looks (n + k) (m + k) (reader >>= next) (reader >>= follow) := by
  have hfewer : ∀ {bound a} (c c' : Cursor), c.rest.length < bound + k → reader c = .ok a c' →
      c'.rest.length < bound := fun c c' hlt hok =>
    Nat.lt_of_add_lt_add_right (Nat.lt_of_le_of_lt (hk c _ c' hok) hlt)
  intro c value c' hlt hok
  obtain ⟨a, middle, hfirst, hlast⟩ := bind_eq_ok.mp hok
  obtain ⟨used, hused, htakes⟩ := h (n + k) (m + k) c a middle hlt hfirst
  obtain ⟨used', hused', htakes'⟩ := hnext a middle value c' (hfewer c middle hlt hfirst) hlast
  refine ⟨used ++ used', by rw [hused, hused', List.append_assoc], ?_⟩
  apply htakes.bind htakes' hfewer
  intro rest hrest hlooks
  rw [hused', List.head?_append, List.head?_append, hrest hlooks]

/-- The bounds of what comes next are those of both together. -/
theorem Echoes.bind_below {next follow : α → Reader β} (h : Echoes looks reader)
    (hnext : ∀ a, EchoesBelow looks n m (next a) (follow a)) :
    EchoesBelow looks n m (reader >>= next) (reader >>= follow) :=
  h.bind_after 0 (fun _ _ _ => h.length_le) hnext

/-- A turn of a loop takes a byte before the next one begins. -/
theorem Strides.bind_turn {next follow : α → Reader β} (h : Strides reader)
    (hnext : ∀ a, EchoesBelow True n m (next a) (follow a)) :
    EchoesBelow True (n + 1) (m + 1) (reader >>= next) (reader >>= follow) :=
  h.1.bind_after 1 h.2 hnext

theorem Echoes.bind {next : α → Reader β} (h : Echoes looks reader)
    (hnext : ∀ a, Echoes looks (next a)) : Echoes looks (reader >>= next) :=
  fun n m => h.bind_below fun a => hnext a n m

theorem Echoes.map (f : α → β) (h : Echoes looks reader) : Echoes looks (f <$> reader) :=
  h.bind fun a => echoes_pure (f a)

/-- What closes takes something, so nothing behind it is seen by what comes before. -/
theorem Echoes.bind_closes {next : α → Reader β} (h : Echoes looks reader)
    (hnext : ∀ a, Closes (next a)) : Closes (reader >>= next) := by
  constructor
  · intro n m c value c' hlt hok
    obtain ⟨a, middle, hfirst, hlast⟩ := bind_eq_ok.mp hok
    obtain ⟨used, hused, htakes⟩ := h n m c a middle hlt hfirst
    have hmiddle := Nat.lt_of_le_of_lt (h.length_le hfirst) hlt
    obtain ⟨used', hused', htakes'⟩ := (hnext a).1 n m middle value c' hmiddle hlast
    have hne : used' ≠ [] := by
      rintro rfl
      have hless := (hnext a).2 middle value c' hlast
      rw [hused'] at hless
      exact Nat.lt_irrefl _ hless
    refine ⟨used ++ used', by rw [hused, hused', List.append_assoc], ?_⟩
    apply htakes.bind htakes'
    · exact fun c c' hm hok => Nat.lt_of_le_of_lt (h.length_le hok) hm
    · intro rest _ _
      rw [hused', List.head?_append, List.head?_append, List.head?_eq_some_head hne, Option.some_or,
        Option.some_or]
  · intro c value c' hok
    obtain ⟨a, middle, hfirst, hlast⟩ := bind_eq_ok.mp hok
    exact Nat.lt_of_lt_of_le ((hnext a).2 middle value c' hlast) (h.length_le hfirst)

theorem Advances.bind {next : α → Reader β} (h : Advances reader) (hnext : ∀ a, Peeks (next a)) :
    Advances (reader >>= next) := by
  intro c value c' hok
  obtain ⟨a, middle, hfirst, hlast⟩ := bind_eq_ok.mp hok
  exact Nat.lt_of_le_of_lt ((hnext a).length_le hlast) (h c a middle hfirst)

theorem Strides.bind {next : α → Reader β} (h : Strides reader) (hnext : ∀ a, Peeks (next a)) :
    Strides (reader >>= next) :=
  ⟨h.1.bind hnext, h.2.bind hnext⟩

theorem Closes.bind {next : α → Reader β} (h : Closes reader) (hnext : ∀ a, Echoes False (next a)) :
    Closes (reader >>= next) :=
  ⟨h.1.bind hnext, h.2.bind fun a => (hnext a).peeks⟩

theorem Closes.map (f : α → β) (h : Closes reader) : Closes (f <$> reader) :=
  ⟨h.1.map f, h.2.bind fun a => echoes_pure (f a)⟩

/-! ## Single bytes -/

theorem peeks_peek : Peeks peek := by
  refine echoes_iff.mpr fun c a c' hok => ?_
  cases hok
  refine ⟨[], rfl, fun d rest hd hnext => ⟨d, ?_, hd⟩⟩
  rw [← hnext trivial, peek, hd, List.nil_append]

/-- Moving on by a byte, where the answer is told by that byte. -/
theorem peeks_of_advance (answer : Option UInt8 → α)
    (h : ∀ c, reader c = .ok (answer c.rest.head?) c.advance) : Peeks reader := by
  refine echoes_iff.mpr fun c a c' hok => ?_
  rw [h] at hok
  cases hok
  simp only [h, rest_advance, EStateM.Result.ok.injEq]
  cases c.rest with
  | nil =>
      -- At the end nothing is taken, and as there is no next byte the other text ends there too.
      refine ⟨[], rfl, fun d rest hd hnext => ⟨d.advance, ⟨?_, rfl⟩, ?_⟩⟩
      · rw [hd, List.nil_append, hnext trivial, List.tail_nil]
      · rw [rest_advance, hd, List.nil_append, List.head?_eq_none_iff.mp (hnext trivial), List.tail_nil]
  | cons x bytes =>
      refine ⟨[x], rfl, fun d rest hd _ => ⟨d.advance, ⟨?_, rfl⟩, ?_⟩⟩
      · rw [hd, List.singleton_append, List.head?_cons, List.head?_cons]
      · rw [rest_advance, hd, List.singleton_append, List.tail_cons]

theorem peeks_pass : Peeks pass :=
  peeks_of_advance (fun _ => ()) fun _ => rfl

theorem peeks_take : Peeks take :=
  peeks_of_advance id fun _ => rfl

theorem peeks_nextIs (condition : UInt8 → Bool) : Peeks (nextIs condition) :=
  peeks_peek.bind fun _ => echoes_pure _

/-- A byte that is taken has to be there, so that what follows it does not matter to the reader. -/
theorem echoes_take_bind {next : Option UInt8 → Reader β} (hnone : Fails (next none))
    (hnext : ∀ x, Echoes looks (next (some x))) : Echoes looks (take >>= next) := by
  refine echoes_iff.mpr fun c a c' hok => ?_
  change next c.rest.head? c.advance = _ at hok
  cases hrest : c.rest with
  | nil =>
      rw [hrest] at hok
      exact absurd hok (hnone _ _ _)
  | cons x bytes =>
      rw [hrest, List.head?_cons] at hok
      obtain ⟨used, hused, hall⟩ := echoes_iff.mp (hnext x) _ _ _ hok
      rw [rest_advance, hrest, List.tail_cons] at hused
      refine ⟨x :: used, congrArg (x :: ·) hused, fun d rest hd hlooks => ?_⟩
      obtain ⟨d', hread, hrest'⟩ := hall d.advance rest (by rw [rest_advance, hd]; rfl) hlooks
      refine ⟨d', ?_, hrest'⟩
      show next d.rest.head? d.advance = _
      rwa [hd, List.cons_append, List.head?_cons]

/-- To go on from a byte that was taken, and only from one, takes at least that byte. -/
theorem strides_take_bind {next : Option UInt8 → Reader β} (hnone : Fails (next none))
    (hnext : ∀ x, Peeks (next (some x))) : Strides (take >>= next) := by
  constructor
  · refine peeks_take.bind fun x => ?_
    cases x with
    | none => exact hnone.echoes
    | some x => exact hnext x
  · intro c a c' hok
    change next c.rest.head? c.advance = _ at hok
    cases hrest : c.rest with
    | nil =>
        rw [hrest] at hok
        exact absurd hok (hnone _ _ _)
    | cons x bytes =>
        rw [hrest] at hok
        have hle := (hnext x).length_le hok
        rw [rest_advance, hrest] at hle
        exact Nat.lt_succ_of_le hle

theorem proceeds_pass_bind {next : Unit → Reader β} (hnext : Peeks (next ())) :
    Proceeds (pass >>= next) := by
  refine ⟨peeks_pass.bind fun _ => hnext, fun c a c' hne hok => ?_⟩
  change next () c.advance = _ at hok
  exact Nat.lt_of_le_of_lt (hnext.length_le hok) (length_advance_lt hne)

/-- A loop that begins with a look at the next byte, and passes it before it goes on. -/
theorem peek_bind_turn {next follow : Option UInt8 → Reader β} (hnone : Fails (next none))
    (hsome : ∀ x, Fails (next (some x)) ∨ ∃ go go', next (some x) = (pass >>= go) ∧
      follow (some x) = (pass >>= go') ∧ EchoesBelow looks n m (go ()) (go' ())) :
    EchoesBelow looks (n + 1) (m + 1) (peek >>= next) (peek >>= follow) := by
  intro c a c' hlt hok
  change next c.rest.head? c = _ at hok
  cases hrest : c.rest with
  | nil =>
      rw [hrest] at hok
      exact absurd hok (hnone _ _ _)
  | cons x bytes =>
      rw [hrest, List.head?_cons] at hok
      rcases hsome x with hfails | ⟨go, go', hgo, hgo', hechoes⟩
      · exact absurd hok (hfails _ _ _)
      · rw [hgo] at hok
        change go () c.advance = _ at hok
        have hadvance : c.advance.rest = bytes := by rw [rest_advance, hrest, List.tail_cons]
        rw [hrest] at hlt
        -- The byte that is looked at is passed, so the rest is within the smaller bounds.
        obtain ⟨used, hused, htakes⟩ := hechoes c.advance a c'
          (by rw [hadvance]; exact Nat.lt_of_succ_lt_succ hlt) hok
        refine ⟨x :: used, by rw [← hadvance, hused, List.cons_append], ?_⟩
        intro d rest hd hm hlooks
        have hadvance' : d.advance.rest = used ++ rest := by rw [rest_advance, hd]; rfl
        show ∃ d', follow d.rest.head? d = _ ∧ _
        rw [hd, List.cons_append, List.head?_cons, hgo']
        refine htakes d.advance rest hadvance' ?_ hlooks
        rw [hd] at hm
        rw [hadvance']
        exact Nat.lt_of_succ_lt_succ hm

/-! ## Runs of bytes -/

/-- A run of bytes that ends with the text, or with a certain other byte. -/
theorem takeWhile_append_of_head? {condition : UInt8 → Bool} {bytes rest : List UInt8}
    (h : rest.head? = (bytes.dropWhile condition).head?) :
    (bytes.takeWhile condition ++ rest).takeWhile condition = bytes.takeWhile condition ∧
      (bytes.takeWhile condition ++ rest).dropWhile condition = rest := by
  have hall : ∀ b ∈ bytes.takeWhile condition, condition b = true :=
    List.all_eq_true.mp List.all_takeWhile
  have hstop : rest.takeWhile condition = [] ∧ rest.dropWhile condition = rest := by
    cases rest with
    | nil => exact ⟨rfl, rfl⟩
    | cons x rest =>
        have hx : condition x ≠ true := by
          intro hx
          have hnot := List.head?_dropWhile_not condition bytes
          rw [← h, List.head?_cons] at hnot
          simp [hx] at hnot
        exact ⟨List.takeWhile_cons_of_neg hx, List.dropWhile_cons_of_neg hx⟩
  rw [List.takeWhile_append_of_pos hall, List.dropWhile_append_of_pos hall, hstop.1, hstop.2,
    List.append_nil]
  exact ⟨rfl, rfl⟩

theorem rest_toToken (c : Cursor) : c.toToken.rest = c.rest.dropWhile Cursor.isBlank :=
  rest_passBlanks _ _ _

/-- White space is passed up to the first other byte, which is looked at. -/
theorem peeks_token : Peeks token := by
  refine echoes_iff.mpr fun c a c' hok => ?_
  cases hok
  refine ⟨c.rest.takeWhile Cursor.isBlank, ?_, fun d rest hd hnext => ?_⟩
  · rw [rest_toToken, List.takeWhile_append_dropWhile]
  · -- The next byte is not blank in the one text, so it is not in the other.
    rw [rest_toToken] at hnext
    have hrest : d.toToken.rest = rest := by
      rw [rest_toToken, hd, (takeWhile_append_of_head? (hnext trivial)).2]
    refine ⟨d.toToken, ?_, hrest⟩
    show EStateM.Result.ok d.toToken.rest.head? _ = .ok c.toToken.rest.head? _
    rw [hrest, hnext trivial, rest_toToken]

theorem peeks_passDigits : Peeks passDigits := by
  refine echoes_iff.mpr fun c a c' hok => ?_
  cases hok
  refine ⟨c.rest.takeWhile isDigit, (List.takeWhile_append_dropWhile).symm, fun d rest hd hnext => ?_⟩
  obtain ⟨htake, hdrop⟩ := takeWhile_append_of_head? (hnext trivial)
  simp only [passDigits, hd, htake, hdrop]
  exact ⟨_, rfl, rfl⟩

/-- What follows a look at the next token may take for granted that there is one, if it refuses the end. -/
theorem strides_token_bind {next : Option UInt8 → Reader β} (hnone : Fails (next none))
    (hnext : ∀ x, Proceeds (next (some x))) : Strides (token >>= next) := by
  constructor
  · refine peeks_token.bind fun x => ?_
    cases x with
    | none => exact hnone.echoes
    | some x => exact (hnext x).1
  · intro c a c' hok
    change next c.toToken.rest.head? c.toToken = _ at hok
    have hle : c.toToken.rest.length ≤ c.rest.length := peeks_token.length_le rfl
    cases hhead : c.toToken.rest with
    | nil =>
        rw [hhead] at hok
        exact absurd hok (hnone _ _ _)
    | cons x bytes =>
        rw [hhead] at hok
        have hne : c.toToken.rest ≠ [] := hhead ▸ List.cons_ne_nil x bytes
        exact Nat.lt_of_lt_of_le ((hnext x).2 _ _ _ hne hok) hle

/-- A closing bracket, behind white space; nothing else is accepted. -/
theorem closes_token_bind (bracket : UInt8) {next : Option UInt8 → Reader β} {b : β}
    (hnext : ∀ c, next (some bracket) c = .ok b c.advance)
    (hother : ∀ x, x ≠ some bracket → Fails (next x)) : Closes (token >>= next) := by
  -- The reader succeeds just where the bracket is seen behind white space.
  have hok_iff : ∀ c a c', (token >>= next) c = .ok a c' ↔
      c.toToken.rest.head? = some bracket ∧ a = b ∧ c' = c.toToken.advance := by
    intro c a c'
    change next c.toToken.rest.head? c.toToken = _ ↔ _
    constructor
    · intro hok
      by_cases hhead : c.toToken.rest.head? = some bracket
      · rw [hhead, hnext] at hok
        cases hok
        exact ⟨hhead, rfl, rfl⟩
      · exact absurd hok (hother _ hhead _ _ _)
    · rintro ⟨hhead, rfl, rfl⟩
      rw [hhead, hnext]
  constructor
  · refine echoes_iff.mpr fun c a c' hok => ?_
    obtain ⟨hhead, rfl, rfl⟩ := (hok_iff c a c').mp hok
    rw [rest_toToken] at hhead
    have hdrop : c.rest.dropWhile Cursor.isBlank = bracket :: c.toToken.advance.rest := by
      obtain ⟨bytes, hbytes⟩ := List.head?_eq_some_iff.mp hhead
      rw [rest_advance, rest_toToken, hbytes, List.tail_cons]
    refine ⟨c.rest.takeWhile Cursor.isBlank ++ [bracket], ?_, fun d rest hd _ => ?_⟩
    · rw [List.append_assoc, List.singleton_append, ← hdrop, List.takeWhile_append_dropWhile]
    · have hrest : d.toToken.rest = bracket :: rest := by
        rw [rest_toToken, hd, List.append_assoc, List.singleton_append]
        exact (takeWhile_append_of_head? (by rw [hhead, List.head?_cons])).2
      refine ⟨d.toToken.advance, (hok_iff d _ _).mpr ⟨by rw [hrest, List.head?_cons], rfl, rfl⟩, ?_⟩
      rw [rest_advance, hrest, List.tail_cons]
  · refine (strides_token_bind (hother none (Option.some_ne_none bracket).symm) fun x => ?_).2
    by_cases hx : x = bracket
    · have heq : next (some x) = (pass >>= fun _ => pure b) := funext fun c => hx ▸ hnext c
      rw [heq]
      exact proceeds_pass_bind (echoes_pure b)
    · exact (hother _ fun h => hx (Option.some.inj h)).proceeds

/-! ## Around a reader -/

theorem alike_within (segment : Segment) (reader : Reader α) : Alike (within segment reader) reader := by
  intro c a c'
  rw [within]
  cases reader c with
  | ok => exact Iff.rfl
  | error => constructor <;> (intro h; cases h)

theorem alike_placed (reader : Reader α) : Alike (placed reader) reader := by
  intro c a c'
  rw [placed]
  cases reader c with
  | ok => exact Iff.rfl
  | error => constructor <;> (intro h; cases h)

/-- Where both succeed, a container that is closed is its parts and then its end. -/
theorem alike_closing (reader : Reader α) (ending : Reader Unit) :
    Alike (closing reader ending) (reader >>= fun a => ending >>= fun _ => pure a) := by
  intro c a c'
  rw [closing, bind_eq_ok]
  constructor
  · intro hok
    split at hok
    · next a₁ middle hfirst =>
        split at hok
        · next u after hlast =>
            cases hok
            exact ⟨a, middle, hfirst, bind_eq_ok.mpr ⟨u, c', hlast, rfl⟩⟩
        · cases hok
    · split at hok <;> cases hok
  · rintro ⟨a₁, middle, hfirst, hrest⟩
    obtain ⟨u, after, hlast, hpure⟩ := bind_eq_ok.mp hrest
    cases hpure
    rw [hfirst]
    simp only [hlast]

/-- Parts may look ahead if the end is sure to be taken. -/
theorem closes_closing {ending : Reader Unit} (h : Peeks reader) (hending : Closes ending) :
    Closes (closing reader ending) :=
  (alike_closing reader ending).closes (h.bind_closes fun a => hending.map fun _ => a)

theorem Fails.placed (h : Fails reader) : Fails (placed reader) :=
  fun c a c' hok => h c a c' ((alike_placed reader c a c').mp hok)

/-! ## Loops -/

/-- Every turn of the loop takes a byte, so the bytes to come bound the turns, in both texts. -/
theorem echoes_loop {σ : Type} (loop : Bound → σ → Reader α)
    (hturn : ∀ n m bound bound', (∀ s, EchoesBelow looks n m (loop bound s) (loop bound' s)) →
      ∀ x y s, EchoesBelow looks (n + 1) (m + 1) (loop (x :: bound) s) (loop (y :: bound') s))
    (s : σ) : Echoes looks (withBound fun bound => loop bound s) := by
  have hloop : ∀ n m bound bound', n ≤ bound.length → m ≤ bound'.length →
      ∀ s, EchoesBelow looks n m (loop bound s) (loop bound' s) := by
    intro n
    induction n with
    | zero => exact fun _ _ _ _ _ _ _ _ _ hlt => absurd hlt (Nat.not_lt_zero _)
    | succ n ih =>
        intro m bound bound' hbound hbound' s
        obtain ⟨x, bound, rfl⟩ := List.exists_cons_of_length_pos (Nat.lt_of_lt_of_le n.succ_pos hbound)
        have hlength := Nat.le_of_succ_le_succ hbound
        cases m with
        | zero =>
            -- There is nothing to take, but what has been taken is still to be told.
            intro c a c' hlt hok
            obtain ⟨used, hused, -⟩ := hturn n n bound bound (ih n bound bound hlength hlength) x x s
              c a c' hlt hok
            exact ⟨used, hused, fun _ _ _ hm => absurd hm (Nat.not_lt_zero _)⟩
        | succ m =>
            obtain ⟨y, bound', rfl⟩ :=
              List.exists_cons_of_length_pos (Nat.lt_of_lt_of_le m.succ_pos hbound')
            exact hturn n m bound bound'
              (ih m bound bound' hlength (Nat.le_of_succ_le_succ hbound')) x y s
  refine echoes_iff.mpr fun c a c' hok => ?_
  obtain ⟨used, hused, -⟩ := hloop (c.rest.length + 1) 0 (0 :: 0 :: c.rest) [] (Nat.le_succ _)
    (Nat.le_refl 0) s c a c' (Nat.lt_succ_self _) hok
  refine ⟨used, hused, fun d rest hd hnext => ?_⟩
  obtain ⟨used', hused', htakes⟩ := hloop (c.rest.length + 1) (d.rest.length + 1) (0 :: 0 :: c.rest)
    (0 :: 0 :: d.rest) (Nat.le_succ _) (Nat.le_succ _) s c a c' (Nat.lt_succ_self _) hok
  have hsame : used' = used := List.append_cancel_right (hused'.symm.trans hused)
  exact htakes d rest (by rw [hd, hsame]) (Nat.lt_succ_self _) hnext

end SampleTypes.Json.Reader

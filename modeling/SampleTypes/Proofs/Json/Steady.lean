import SampleTypes.Proofs.Json.Reading

/-!
# Readers that do not need a byte at the end

Two readings are compared, one of them with a byte more at the end of what is still to come (`Trails`). A
reader is steady if whatever it reads in the first place it also reads in the second (`Steady`). Only the
readers that look at the next byte need a closer look: to them the byte has to be the same as the end.

A loop is bounded by the bytes still to come, and these differ. It is steady as long as each turn takes a
byte (`steady_loop`), so that the bound is never reached.
-/

namespace SampleTypes.Json.Reader

variable {α β : Type} {b : UInt8} {c d c' : Cursor} {reader other : Reader α} {a : α}

/-- The same bytes are still to come, or one more at the end of the first ones. -/
def Trails (b : UInt8) (c d : Cursor) : Prop :=
  c.rest = d.rest ++ [b] ∨ c.rest = d.rest

/-- What one reader reads with a byte more at the end, the other reads without it. -/
def Drops (b : UInt8) (reader other : Reader α) : Prop :=
  ∀ c d a c', Trails b c d → reader c = .ok a c' →
    c'.rest.length ≤ c.rest.length ∧ ∃ d', other d = .ok a d' ∧ Trails b c' d'

/-- What is read with a byte more at the end is read without it. -/
abbrev Steady (b : UInt8) (reader : Reader α) : Prop :=
  Drops b reader reader

/-- What one reader reads with a byte more at the end, the other reads without it, as long as fewer than `n`
bytes are to come. -/
def DropsBelow (b : UInt8) (n : Nat) (reader other : Reader α) : Prop :=
  ∀ c d a c', c.rest.length < n → Trails b c d → reader c = .ok a c' →
    c'.rest.length ≤ c.rest.length ∧ ∃ d', other d = .ok a d' ∧ Trails b c' d'

/-- The reader is steady, and takes a byte whenever it reads something. -/
def Strict (b : UInt8) (reader : Reader α) : Prop :=
  Steady b reader ∧ ∀ c a c', reader c = .ok a c' → c'.rest.length < c.rest.length

/-- The reader is steady, and takes a byte if there is one. -/
def Moves (b : UInt8) (reader : Reader α) : Prop :=
  Steady b reader ∧ ∀ c a c', c.rest ≠ [] → reader c = .ok a c' → c'.rest.length < c.rest.length

/-- The reader refuses everything. -/
def Fails (reader : Reader α) : Prop :=
  ∀ c a c', reader c ≠ .ok a c'

/-! ## One step after another -/

/-- Two readers in a row succeed by way of what the first one has left. -/
theorem bind_eq_ok {next : α → Reader β} {value : β} :
    (reader >>= next) c = .ok value c' ↔
      ∃ a middle, reader c = .ok a middle ∧ next a middle = .ok value c' := by
  change EStateM.bind reader next c = _ ↔ _
  rw [EStateM.bind]
  constructor
  · intro h
    split at h
    · next a middle hfirst => exact ⟨a, middle, hfirst, h⟩
    · cases h
  · rintro ⟨a, middle, hfirst, hrest⟩
    rw [hfirst]
    exact hrest

theorem steady_pure (a : α) : Steady b (pure a : Reader α) := by
  intro c d a' c' htrails h
  cases h
  exact ⟨Nat.le_refl _, d, rfl, htrails⟩

theorem Drops.below (h : Drops b reader other) (n : Nat) : DropsBelow b n reader other :=
  fun c d a c' _ => h c d a c'

/-- The bound is still kept behind a reader, as it never leaves more. -/
theorem Drops.bind_below {n : Nat} {next follow : α → Reader β} (h : Drops b reader other)
    (hnext : ∀ a, DropsBelow b n (next a) (follow a)) :
    DropsBelow b n (reader >>= next) (other >>= follow) := by
  intro c d value c' hlt htrails hok
  obtain ⟨a, middle, hfirst, hrest⟩ := bind_eq_ok.mp hok
  obtain ⟨hle, d₁, hother, htrails₁⟩ := h c d a middle htrails hfirst
  obtain ⟨hle', d', hfollow, htrails'⟩ :=
    hnext a middle d₁ value c' (Nat.lt_of_le_of_lt hle hlt) htrails₁ hrest
  exact ⟨Nat.le_trans hle' hle, d', bind_eq_ok.mpr ⟨a, d₁, hother, hfollow⟩, htrails'⟩

theorem Drops.bind {next follow : α → Reader β} (h : Drops b reader other)
    (hnext : ∀ a, Drops b (next a) (follow a)) : Drops b (reader >>= next) (other >>= follow) :=
  fun c d value c' => (h.bind_below fun a => (hnext a).below _) c d value c' (Nat.lt_succ_self _)

theorem Drops.map (f : α → β) (h : Drops b reader other) : Drops b (f <$> reader) (f <$> other) :=
  h.bind fun a => steady_pure (f a)

theorem Steady.length_le (h : Steady b reader) (hok : reader c = .ok a c') :
    c'.rest.length ≤ c.rest.length :=
  (h c c a c' (.inr rfl) hok).1

/-- One byte that is taken is enough for both readers together. -/
theorem Strict.bind {next : α → Reader β} (h : Strict b reader) (hnext : ∀ a, Steady b (next a)) :
    Strict b (reader >>= next) := by
  refine ⟨h.1.bind hnext, fun c value c' hok => ?_⟩
  obtain ⟨a, middle, hfirst, hrest⟩ := bind_eq_ok.mp hok
  exact Nat.lt_of_le_of_lt (Steady.length_le (hnext a) hrest) (h.2 c a middle hfirst)

theorem Steady.bind_strict {next : α → Reader β} (h : Steady b reader) (hnext : ∀ a, Strict b (next a)) :
    Strict b (reader >>= next) := by
  refine ⟨Drops.bind h fun a => (hnext a).1, fun c value c' hok => ?_⟩
  obtain ⟨a, middle, hfirst, hrest⟩ := bind_eq_ok.mp hok
  exact Nat.lt_of_lt_of_le ((hnext a).2 middle value c' hrest) (Steady.length_le h hfirst)

/-- After a reader that takes a byte there are fewer bytes to come. -/
theorem Strict.bind_below {n : Nat} {next follow : α → Reader β} (h : Strict b reader)
    (hnext : ∀ a, DropsBelow b n (next a) (follow a)) :
    DropsBelow b (n + 1) (reader >>= next) (reader >>= follow) := by
  intro c d value c' hlt htrails hok
  obtain ⟨a, middle, hfirst, hrest⟩ := bind_eq_ok.mp hok
  obtain ⟨hle, d₁, hother, htrails₁⟩ := h.1 c d a middle htrails hfirst
  have hmiddle : middle.rest.length < n :=
    Nat.lt_of_lt_of_le (h.2 c a middle hfirst) (Nat.le_of_lt_succ hlt)
  obtain ⟨hle', d', hfollow, htrails'⟩ := hnext a middle d₁ value c' hmiddle htrails₁ hrest
  exact ⟨Nat.le_trans hle' hle, d', bind_eq_ok.mpr ⟨a, d₁, hother, hfollow⟩, htrails'⟩

theorem Strict.moves (h : Strict b reader) : Moves b reader :=
  ⟨h.1, fun c a c' _ => h.2 c a c'⟩

theorem Fails.drops (h : Fails reader) : Drops b reader other :=
  fun c _ a c' _ hok => absurd hok (h c a c')

theorem Fails.strict (h : Fails reader) : Strict b reader :=
  ⟨h.drops, fun c a c' hok => absurd hok (h c a c')⟩

theorem fails_refuse (fault : Fault) : Fails (refuse fault : Reader α) := by
  intro c a c' h
  cases h

theorem fails_refuseNext (fault : Fault) : Fails (refuseNext fault : Reader α) := by
  intro c a c' h
  cases h

/-- Whatever comes next, it is refused. -/
theorem fails_peek_bind {next : Option UInt8 → Reader α} (h : ∀ x, Fails (next x)) :
    Fails (peek >>= next) := by
  intro c a c' hok
  change next c.rest.head? c = _ at hok
  exact h _ _ _ _ hok

/-! ## Single bytes -/

/-- To advance keeps the difference of the texts, if any is left. -/
theorem trails_advance (h : Trails b c d) : Trails b c.advance d.advance := by
  rw [Trails, rest_advance, rest_advance]
  rcases h with h | h
  · cases hd : d.rest with
    | nil =>
        rw [h, hd]
        exact .inr rfl
    | cons x rest =>
        rw [h, hd]
        exact .inl rfl
  · rw [h]
    exact .inr rfl

theorem length_advance_le (c : Cursor) : c.advance.rest.length ≤ c.rest.length := by
  rw [rest_advance, List.length_tail]
  exact Nat.sub_le _ _

theorem steady_pass : Steady b pass := by
  intro c d a c' htrails h
  cases h
  exact ⟨length_advance_le c, d.advance, rfl, trails_advance htrails⟩

/-- What comes next is the same, or it is the byte at the end. -/
theorem Trails.head?_eq (h : Trails b c d) :
    c.rest.head? = d.rest.head? ∨ c.rest.head? = some b ∧ d.rest.head? = none := by
  rcases h with h | h
  · cases hd : d.rest with
    | nil =>
        rw [h, hd]
        exact .inr ⟨rfl, rfl⟩
    | cons x rest =>
        rw [h, hd]
        exact .inl rfl
  · exact .inl (congrArg List.head? h)

/-- After a look at the next byte, where the byte at the end is as good as none. -/
theorem steady_peek_bind {next : Option UInt8 → Reader β} (hnext : ∀ x, Steady b (next x))
    (hend : Drops b (next (some b)) (next none)) : Steady b (peek >>= next) := by
  intro c d a c' htrails h
  change next c.rest.head? c = _ at h
  show _ ∧ ∃ d', next d.rest.head? d = _ ∧ _
  rcases htrails.head?_eq with heq | ⟨hc, hd⟩
  · rw [← heq]
    exact hnext _ c d a c' htrails h
  · rw [hc] at h
    rw [hd]
    exact hend c d a c' htrails h

/-- If a reader goes on from the last byte as it would from the end, it does not need it. -/
theorem steady_take_bind {next : Option UInt8 → Reader β} (hnext : ∀ x, Steady b (next x))
    (hend : Drops b (next (some b)) (next none)) : Steady b (take >>= next) := by
  intro c d a c' htrails h
  change next c.rest.head? c.advance = _ at h
  show _ ∧ ∃ d', next d.rest.head? d.advance = _ ∧ _
  have hle := length_advance_le c
  rcases htrails.head?_eq with heq | ⟨hc, hd⟩
  · rw [← heq]
    obtain ⟨hle', hd'⟩ := hnext _ _ _ a c' (trails_advance htrails) h
    exact ⟨Nat.le_trans hle' hle, hd'⟩
  · rw [hc] at h
    rw [hd]
    obtain ⟨hle', hd'⟩ := hend _ _ a c' (trails_advance htrails) h
    exact ⟨Nat.le_trans hle' hle, hd'⟩

theorem length_advance_lt (h : c.rest ≠ []) : c.advance.rest.length < c.rest.length := by
  rw [rest_advance, List.length_tail]
  exact Nat.sub_lt (List.length_pos_iff.mpr h) Nat.one_pos

theorem strict_take_bind {next : Option UInt8 → Reader β} (hnext : ∀ x, Steady b (next x))
    (hend : Drops b (next (some b)) (next none)) (hnone : Fails (next none)) :
    Strict b (take >>= next) := by
  refine ⟨steady_take_bind hnext hend, fun c a c' h => ?_⟩
  change next c.rest.head? c.advance = _ at h
  have hne : c.rest ≠ [] := by
    intro hempty
    rw [hempty] at h
    exact hnone _ _ _ h
  exact Nat.lt_of_le_of_lt (Steady.length_le (hnext _) h) (length_advance_lt hne)

theorem moves_pass : Moves b pass :=
  ⟨steady_pass, fun c _ c' hne h => by cases h; exact length_advance_lt hne⟩

theorem moves_pass_bind {next : Unit → Reader β} (hnext : ∀ a, Steady b (next a)) :
    Moves b (pass >>= next) := by
  refine ⟨steady_pass.bind hnext, fun c a c' hne h => ?_⟩
  change next () c.advance = _ at h
  exact Nat.lt_of_le_of_lt (Steady.length_le (hnext ()) h) (length_advance_lt hne)

/-! ## Blanks -/

theorem isBlank_cases (h : Cursor.isBlank b = true) : b = 0x20 ∨ b = 0x0A ∨ b = 0x09 ∨ b = 0x0D := by
  simpa only [Cursor.isBlank, Bool.or_eq_true, beq_iff_eq, or_assoc] using h

/-- A condition that no blank meets. -/
def Unblank (condition : UInt8 → Bool) : Prop :=
  condition 0x20 = false ∧ condition 0x0A = false ∧ condition 0x09 = false ∧ condition 0x0D = false

theorem Unblank.apply {condition : UInt8 → Bool} (h : Unblank condition)
    (hb : Cursor.isBlank b = true) : condition b = false := by
  obtain ⟨hspace, hfeed, htab, hreturn⟩ := h
  rcases isBlank_cases hb with rfl | rfl | rfl | rfl
  · exact hspace
  · exact hfeed
  · exact htab
  · exact hreturn

theorem unblank_isDigit : Unblank isDigit := ⟨rfl, rfl, rfl, rfl⟩

theorem rest_passBlanks (rest : List UInt8) (line column : Nat) :
    (Cursor.passBlanks rest line column).rest = rest.dropWhile Cursor.isBlank := by
  induction rest generalizing line column with
  | nil => rfl
  | cons x rest ih =>
      rw [Cursor.passBlanks, List.dropWhile_cons]
      by_cases hfeed : x == 0x0A
      · have hblank : Cursor.isBlank x = true := by
          rw [eq_of_beq hfeed]
          rfl
        rw [if_pos hfeed, if_pos hblank, ih]
      · rw [if_neg hfeed]
        by_cases hblank : Cursor.isBlank x = true
        · rw [if_pos hblank, if_pos hblank, ih]
        · rw [if_neg hblank, if_neg hblank]

/-- A blank at the end is passed like any other one. -/
theorem steady_token (hb : Cursor.isBlank b = true) : Steady b token := by
  -- Blanks that reach the end take the byte there with them; else it stays where it is.
  have hdrop : ∀ rest : List UInt8, (rest ++ [b]).dropWhile Cursor.isBlank =
      rest.dropWhile Cursor.isBlank ++ [b] ∧ rest.dropWhile Cursor.isBlank ≠ [] ∨
      (rest ++ [b]).dropWhile Cursor.isBlank = rest.dropWhile Cursor.isBlank := by
    intro rest
    rw [List.dropWhile_append]
    split
    · next hempty =>
        rw [List.isEmpty_iff.mp hempty, List.dropWhile_cons_of_pos hb]
        exact .inr rfl
    · next hempty => exact .inl ⟨rfl, fun h => hempty (h ▸ rfl)⟩
  intro c d a c' htrails h
  cases h
  have hc : c.toToken.rest = c.rest.dropWhile Cursor.isBlank := rest_passBlanks _ _ _
  have hd : d.toToken.rest = d.rest.dropWhile Cursor.isBlank := rest_passBlanks _ _ _
  refine ⟨?_, d.toToken, ?_, ?_⟩
  · rw [hc]
    exact (List.dropWhile_sublist _).length_le
  · show EStateM.Result.ok d.toToken.rest.head? _ = .ok c.toToken.rest.head? _
    rw [hc, hd]
    rcases htrails with heq | heq
    · rw [heq]
      rcases hdrop d.rest with ⟨hmore, hne⟩ | hsame
      · rw [hmore, List.head?_append, List.head?_eq_some_head hne, Option.some_or]
      · rw [hsame]
    · rw [heq]
  · rw [Trails, hc, hd]
    rcases htrails with heq | heq
    · rw [heq]
      exact (hdrop d.rest).imp_left And.left
    · exact .inr (congrArg _ heq)

/-- What follows a look at the next token may take for granted that there is one, if it refuses the end. -/
theorem strict_token_bind (hb : Cursor.isBlank b = true) {next : Option UInt8 → Reader β}
    (hnone : Fails (next none)) (hnext : ∀ x, Moves b (next (some x))) : Strict b (token >>= next) := by
  constructor
  · refine Drops.bind (steady_token hb) fun x => ?_
    cases x with
    | none => exact hnone.drops
    | some x => exact (hnext x).1
  · intro c a c' h
    change next c.toToken.rest.head? c.toToken = _ at h
    have hle : c.toToken.rest.length ≤ c.rest.length :=
      Steady.length_le (steady_token hb) (c := c) rfl
    cases hhead : c.toToken.rest.head? with
    | none =>
        rw [hhead] at h
        exact absurd h (hnone _ _ _)
    | some x =>
        rw [hhead] at h
        have hne : c.toToken.rest ≠ [] := by
          intro hempty
          rw [hempty] at hhead
          cases hhead
        exact Nat.lt_of_lt_of_le ((hnext x).2 _ _ _ hne h) hle

theorem steady_nextIs (hb : Cursor.isBlank b = true) {condition : UInt8 → Bool}
    (h : Unblank condition) : Steady b (nextIs condition) := by
  refine steady_peek_bind (fun x => steady_pure _) ?_
  have hnone : (some b).any condition = (none : Option UInt8).any condition := h.apply hb
  rw [hnone]
  exact steady_pure _

/-! ## Parts and endings -/

theorem Drops.within (segment : Segment) (h : Drops b reader other) :
    Drops b (within segment reader) (within segment other) := by
  intro c d a c' htrails hok
  rw [Reader.within] at hok
  split at hok
  · next a middle hfirst =>
      cases hok
      obtain ⟨hle, d', hother, htrails'⟩ := h c d a c' htrails hfirst
      refine ⟨hle, d', ?_, htrails'⟩
      rw [Reader.within, hother]
  · cases hok

theorem Strict.within (segment : Segment) (h : Strict b reader) : Strict b (within segment reader) := by
  refine ⟨Drops.within segment h.1, fun c a c' hok => ?_⟩
  rw [Reader.within] at hok
  split at hok
  · next a middle hfirst =>
      cases hok
      exact h.2 c a c' hfirst
  · cases hok

theorem steady_closing {ending : Reader Unit} (h : Steady b reader) (hending : Steady b ending) :
    Steady b (closing reader ending) := by
  intro c d a c' htrails hok
  rw [closing] at hok
  split at hok
  · next a middle hfirst =>
      obtain ⟨hle, d₁, hother, htrails₁⟩ := h c d a middle htrails hfirst
      split at hok
      · next u c' hlast =>
          cases hok
          obtain ⟨hle', d', hother', htrails'⟩ := hending middle d₁ u c' htrails₁ hlast
          refine ⟨Nat.le_trans hle' hle, d', ?_, htrails'⟩
          rw [closing, hother]
          simp only [hother']
      · cases hok
  · split at hok <;> cases hok

/-! ## Loops -/

/-- Every turn of the loop takes a byte, so the bytes to come bound the turns, with or without a byte more. -/
theorem steady_loop {σ : Type} (loop : Bound → σ → Reader α)
    (hturn : ∀ n bound bound', (∀ s, DropsBelow b n (loop bound s) (loop bound' s)) →
      ∀ x y s, DropsBelow b (n + 1) (loop (x :: bound) s) (loop (y :: bound') s))
    (s : σ) : Steady b (withBound fun bound => loop bound s) := by
  -- On the number of bytes to come: as long as there are any, neither bound has run out.
  have hloop : ∀ n bound bound', n ≤ bound.length → n ≤ bound'.length →
      ∀ s, DropsBelow b n (loop bound s) (loop bound' s) := by
    intro n
    induction n with
    | zero => exact fun _ _ _ _ _ _ _ _ _ hlt => absurd hlt (Nat.not_lt_zero _)
    | succ n ih =>
        rintro (_ | ⟨x, bound⟩) (_ | ⟨y, bound'⟩) hbound hbound'
        · exact absurd hbound (Nat.not_succ_le_zero n)
        · exact absurd hbound (Nat.not_succ_le_zero n)
        · exact absurd hbound' (Nat.not_succ_le_zero n)
        · exact hturn n bound bound'
            (ih bound bound' (Nat.le_of_succ_le_succ hbound) (Nat.le_of_succ_le_succ hbound')) x y
  intro c d a c' htrails hok
  have hlength : c.rest.length ≤ d.rest.length + 1 := by
    rcases htrails with heq | heq
    · rw [heq, List.length_append]
      exact Nat.le_refl _
    · rw [heq]
      exact Nat.le_succ _
  exact hloop (c.rest.length + 1) (0 :: 0 :: c.rest) (0 :: 0 :: d.rest) (Nat.le_succ _)
    (Nat.succ_le_succ hlength) s c d a c' (Nat.lt_succ_self _) htrails hok

/-- To go on from a byte needs a smaller bound, as that byte has been taken. -/
theorem take_bind_below {n : Nat} {next follow : Option UInt8 → Reader β}
    (hnext : ∀ x, DropsBelow b n (next (some x)) (follow (some x)))
    (hend : ∀ c a c', c.rest = [] → next (some b) c ≠ .ok a c') (hnone : Fails (next none)) :
    DropsBelow b (n + 1) (take >>= next) (take >>= follow) := by
  intro c d a c' hlt htrails h
  change next c.rest.head? c.advance = _ at h
  show _ ∧ ∃ d', follow d.rest.head? d.advance = _ ∧ _
  cases hhead : c.rest.head? with
  | none =>
      rw [hhead] at h
      exact absurd h (hnone _ _ _)
  | some x =>
      rw [hhead] at h
      have hlt' : c.advance.rest.length < n := by
        have hne : c.rest ≠ [] := fun hempty => by rw [hempty] at hhead; cases hhead
        exact Nat.lt_of_lt_of_le (length_advance_lt hne) (Nat.le_of_lt_succ hlt)
      -- Both texts have the same first byte, or it is the one that only the first text has.
      rcases htrails.head?_eq with heq | ⟨hc, hd⟩
      · rw [← heq, hhead]
        obtain ⟨hle, hd'⟩ := hnext x _ _ a c' hlt' (trails_advance htrails) h
        exact ⟨Nat.le_trans hle (length_advance_le c), hd'⟩
      · -- The byte is the last one.
        have hx : x = b := Option.some_inj.mp (hhead.symm.trans hc)
        have hempty : c.advance.rest = [] := by
          rw [List.head?_eq_none_iff] at hd
          rw [rest_advance]
          rcases htrails with heq | heq <;> rw [heq, hd] <;> rfl
        exact absurd (hx ▸ h) (hend _ _ _ hempty)

end SampleTypes.Json.Reader
